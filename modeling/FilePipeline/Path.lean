import FilePipeline.Error

/-! # Paths

A piece of work carries its path in a field of fixed size: the bytes of the path, zeros after them,
and the length. `PathField.ofString?` admits the paths that fit, `PathField.text` reads the path
back. Whether the platform can open a path is decided later, by `nativePath`. -/

namespace FilePipeline

/-- The size of the field, with room for one zero byte after the path. -/
def pathFieldSize : Nat := 1024

/-- The longest path that fits. -/
def maxPathLength : Nat := pathFieldSize - 1

/-- A path in its field. -/
structure PathField where
  bytes : ByteArray
  length : Nat

namespace PathField

def empty : PathField := ⟨⟨Array.replicate pathFieldSize 0⟩, 0⟩

instance : Inhabited PathField := ⟨empty⟩

/-- The field that holds a path, if the path fits. -/
def ofString? (path : String) : Except PathError PathField :=
  let bytes := path.toUTF8
  if maxPathLength < bytes.size then .error (.tooLong bytes.size maxPathLength)
  else .ok ⟨bytes ++ ⟨Array.replicate (pathFieldSize - bytes.size) 0⟩, bytes.size⟩

/-- The path in the field; empty if its bytes are no text, which admission rules out. -/
def text (f : PathField) : String := (String.fromUTF8? (f.bytes.extract 0 f.length)).getD ""

end PathField

/-- Where the first zero byte of a list stands. -/
def zeroOffset? (bytes : List UInt8) : Option Nat := bytes.findIdx? (· == 0)

/-- The path as the platform takes it: any text but the empty one and those with a zero byte. -/
def nativePath (path : String) : Except PathError String :=
  if path.isEmpty then .error .empty
  else
    match zeroOffset? path.toUTF8.data.toList with
    | some offset => .error (.interiorZero offset)
    | none => .ok path

end FilePipeline
