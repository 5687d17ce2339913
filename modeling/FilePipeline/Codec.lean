import FilePipeline.Crash
import FilePipeline.Error
import FilePipeline.Memory.Span
import FilePipeline.Size

/-! # Codecs

A codec turns a payload into a shorter form and back. It may keep a state of its own from call to
call. Compressing and decompressing are given a span to write into and answer with a count; nothing
forces the count to be the number of bytes that were really written, so whoever calls a codec checks
it. Any call may crash. -/

namespace FilePipeline

/-- What a call of a codec did: its answer, what the given span holds afterwards (only the span's
    own size of it counts), and the codec's next state. -/
structure CodecReply (κ : Type) where
  answer : Attempt CodecError Nat
  written : Nat → UInt8
  state : κ

/-- A codec whose states are of type `κ`. -/
structure Codec (κ : Type) where
  /-- The room that compressing `len` bytes needs. -/
  bound : κ → (len : Nat) → Except Crash Nat
  /-- The largest payload that `len` bytes can stand for. -/
  expansion : κ → (len : Nat) → Except Crash Nat
  compress : κ → (src : List UInt8) → (dst : Span) → CodecReply κ
  decompress : κ → (src : List UInt8) → (dst : Span) → CodecReply κ

variable {κ : Type}

/-- The largest payload that a codec lets `len` bytes stand for. One that crashes when it is asked rules
    nothing out. -/
def Codec.decompressedBound (codec : Codec κ) (state : κ) (len : Nat) : Nat :=
  match codec.expansion state len with
  | .ok n => n
  | .error _ => Size.max

namespace CodecReply

/-- The given span after the call. -/
def span (r : CodecReply κ) (dst : Span) : Span := ⟨dst.size, r.written⟩

/-- A call that failed and wrote nothing. -/
def refuse (state : κ) (dst : Span) (e : CodecError) : CodecReply κ :=
  ⟨Attempt.fail e, dst.byte, state⟩

/-- A call that wrote `bytes` to the front of the span and answers with their number. -/
def store (state : κ) (dst : Span) (bytes : Array UInt8) : CodecReply κ :=
  ⟨.ok bytes.size, (dst.overlay 0 (Span.ofArray bytes)).byte, state⟩

end CodecReply

end FilePipeline
