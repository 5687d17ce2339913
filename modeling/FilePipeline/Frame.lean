import FilePipeline.Codec
import FilePipeline.Memory.LittleEndian
import FilePipeline.Size

/-! # Frames

A compressed file is a frame: the payload's length in four bytes, lowest first, and then what the
codec made of the payload. The header lets a reader size its buffer before decompressing; since it
comes from outside, `checkHeader` compares it with what a payload of that length can decode to before
anything is allocated, and `decode` compares it with the length that came out. -/

namespace FilePipeline.Frame

def headerSize : Nat := 4

/-- The largest length a header can hold. -/
def maxPayload : Nat := Nat.pow 2 32 - 1

/-- The header for a payload of `len` bytes. -/
def header (len : Nat) : Span := Span.ofList (LittleEndian.encode headerSize len)

/-- Writes the header for a payload of `len` bytes to the front of a frame. -/
def writeHeader (frame : Span) (len : Nat) : Except CodecError Span :=
  if maxPayload < len then .error (.tooLarge len)
  else if frame.size < headerSize then .error (.truncated frame.size)
  else .ok (frame.overlay 0 (header len))

/-- The length a frame announces. -/
def readHeader (frame : List UInt8) : Except CodecError Nat :=
  let bytes := frame.take headerSize
  if bytes.length < headerSize then .error (.truncated frame.length)
  else .ok (LittleEndian.decode bytes)

variable {κ : Type}

/-- The length a frame announces, if the codec can decode its payload to that many bytes. -/
def checkHeader (codec : Codec κ) (state : κ) (frame : List UInt8) : Except CodecError Nat :=
  match readHeader frame with
  | .error e => .error e
  | .ok claimed =>
    let payload := frame.length - headerSize
    let bound := codec.decompressedBound state payload
    if bound < claimed then .error (.implausibleSize claimed payload bound) else .ok claimed

/-- `checkHeader` as it runs: the codec is asked only if there is a header, and the check crashes if the
    codec does. -/
def examine (codec : Codec κ) (state : κ) (frame : List UInt8) : Attempt CodecError Nat :=
  match readHeader frame, codec.expansion state (frame.length - headerSize) with
  | .ok _, .error c => Attempt.crash c
  | _, _ => Attempt.ofExcept (checkHeader codec state frame)

/-- The room that framing `len` bytes needs. -/
def bound (codec : Codec κ) (state : κ) (len : Nat) : Except Crash Nat :=
  match codec.bound state len with
  | .error c => .error c
  | .ok n => Size.add headerSize n

/-- What framing or unframing did: the length that came out, the span that was written into as it is
    afterwards, and the codec's next state. -/
structure Reply (κ : Type) where
  answer : Attempt CodecError Nat
  span : Span
  state : κ

/-- Writes the frame of `src` into `frame` and answers with its length. -/
def encode (codec : Codec κ) (state : κ) (src : List UInt8) (frame : Span) : Reply κ :=
  match writeHeader frame src.length with
  | .error e => ⟨Attempt.fail e, frame, state⟩
  | .ok headed =>
    let body := headed.drop headerSize
    let r := codec.compress state src body
    let answer := match r.answer with
      | .ok n => Attempt.ofCrash (Size.add headerSize n)
      | .error f => .error f
    ⟨answer, headed.overlay headerSize (r.span body), r.state⟩

/-- Writes the payload of `frame` to the front of `dst` and answers with its length. Only as much of
    `dst` as the header announces is given to the codec. -/
def decode (codec : Codec κ) (state : κ) (frame : List UInt8) (dst : Span) : Reply κ :=
  match examine codec state frame with
  | .error f => ⟨.error f, dst, state⟩
  | .ok expected =>
    if dst.size < expected then ⟨Attempt.fail (.sizeMismatch expected 0), dst, state⟩
    else
      let target := dst.take expected
      let r := codec.decompress state (frame.drop headerSize) target
      let answer := match r.answer with
        | .ok actual =>
          if actual = expected then .ok actual
          else Attempt.fail (.sizeMismatch expected actual)
        | .error f => .error f
      ⟨answer, dst.overlay 0 (r.span target), r.state⟩

/-- The frame of `src`, written into a span of zeros with exactly the room that framing needs. -/
def pack (codec : Codec κ) (state : κ) (src : List UInt8) : Attempt CodecError (List UInt8) :=
  match bound codec state src.length with
  | .error c => Attempt.crash c
  | .ok room =>
    let r := encode codec state src (Span.zeros room)
    r.answer.map fun n => (r.span.take n).toList

/-- The payload of `frame`, written into a span of zeros of exactly the announced length. -/
def unpack (codec : Codec κ) (state : κ) (frame : List UInt8) : Attempt CodecError (List UInt8) :=
  match examine codec state frame with
  | .error f => .error f
  | .ok expected =>
    let r := decode codec state frame (Span.zeros expected)
    r.answer.map fun n => (r.span.take n).toList

end FilePipeline.Frame
