import FilePipeline.Codec
import FilePipeline.Size

/-! # A scripted codec

A codec whose behaviour is set beforehand, for fault injection: it stores bytes unchanged, refuses,
crashes, or claims a count without writing anything. -/

namespace FilePipeline.Codec

/-- What one side of a scripted codec does. -/
inductive Act where
  | store
  | refuse
  | crash
  /-- Answers with this count and writes nothing. -/
  | claim (count : Nat)
  deriving DecidableEq, Repr, Inhabited

/-- The settings of a scripted codec. -/
structure Script where
  /-- Added to a payload's length to get the room asked for. -/
  boundAdd : Int := 0
  compress : Act := .store
  decompress : Act := .store
  /-- The claimed ratio of payload to compressed length; none claims nothing. -/
  ratio : Option Nat := none
  deriving Repr, Inhabited

/-- Plays `act`; `wrap` says which kind of error a refusal becomes. -/
def Act.play (act : Act) (wrap : String → CodecError) (src : List UInt8) (dst : Span) :
    CodecReply Unit :=
  match act with
  | .store =>
    if dst.size < src.length then
      .refuse () dst (wrap s!"store needs {src.length} bytes, has {dst.size}")
    else .store () dst src.toArray
  | .refuse => .refuse () dst (wrap "mock refused")
  | .crash => ⟨Attempt.crash (.component "mock codec panic"), dst.byte, ()⟩
  | .claim count => ⟨.ok count, dst.byte, ()⟩

def scripted (s : Script) : Codec Unit where
  bound _ len := .ok (((len : Int) + s.boundAdd).toNat)
  expansion _ len :=
    match s.ratio with
    | some ratio => .ok (Size.saturatingMul len ratio)
    | none => .ok Size.max
  compress _ src dst := s.compress.play .compress src dst
  decompress _ src dst := s.decompress.play .decompress src dst

end FilePipeline.Codec
