import FilePipeline.Error
import FilePipeline.Text.Inspect

/-! # Inspecting errors

The structured form of an error: its cause by name, with all its data. -/

namespace FilePipeline

open Text

def PathError.inspect : PathError → String
  | .tooLong len max => record "TooLong" [("len", toString len), ("max", toString max)]
  | .empty => "Empty"
  | .interiorZero offset => wrapped "InteriorNul" (toString offset)

def CodecError.inspect : CodecError → String
  | .compress text => wrapped "Compress" (quoted text)
  | .decompress text => wrapped "Decompress" (quoted text)
  | .truncated len => record "Truncated" [("len", toString len)]
  | .sizeMismatch expected actual =>
    record "SizeMismatch" [("expected", toString expected), ("actual", toString actual)]
  | .implausibleSize claimed payload bound =>
    record "ImplausibleSize"
      [("claimed", toString claimed), ("payload", toString payload), ("bound", toString bound)]
  | .tooLarge len => record "TooLarge" [("len", toString len)]

def AllocError.inspect (e : AllocError) : String :=
  record "AllocError"
    [("heap", quoted e.heap), ("size", toString e.size), ("align", toString e.align)]

/-- The structured form of an error; platform errors are left to the platform. -/
def WorkError.inspect? : WorkError → Option String
  | .path cause => some (wrapped "PathEncoding" cause.inspect)
  | .io _ => none
  | .codec cause => some (wrapped "Codec" cause.inspect)
  | .memory cause => some (wrapped "OutOfMemory" cause.inspect)
  | .abandoned => some "Abandoned"

end FilePipeline
