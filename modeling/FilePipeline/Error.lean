/-! # Errors

Every way in which a piece of work can fail, as a value with the data that explains it. Each type has
one function `message` that gives its wording; `WorkError.statusCode` is the number that callers
compare. Sizes in an error are the ones the failing rule looked at. -/

namespace FilePipeline

/-- Why a path was turned down before any file was touched. -/
inductive PathError where
  /-- The path has `len` bytes where at most `max` fit. -/
  | tooLong (len max : Nat)
  | empty
  /-- The first zero byte of the path stands at this offset. -/
  | interiorZero (offset : Nat)
  deriving DecidableEq, Repr, Inhabited

def PathError.message : PathError → String
  | .tooLong len max => s!"path is {len} bytes, limit is {max}"
  | .empty => "path is empty"
  | .interiorZero offset => s!"path contains an interior NUL byte at offset {offset}"

/-- Why a payload could not be framed, or a frame not be opened. -/
inductive CodecError where
  /-- The codec refused to compress, in its own words. -/
  | compress (text : String)
  /-- The codec refused to decompress, in its own words. -/
  | decompress (text : String)
  /-- The frame is shorter than its header. -/
  | truncated (len : Nat)
  /-- The header announced another length than the payload decodes to. -/
  | sizeMismatch (expected actual : Nat)
  /-- The header announces more than a payload of this length can decode to. -/
  | implausibleSize (claimed payload bound : Nat)
  /-- The payload's length does not fit the header. -/
  | tooLarge (len : Nat)
  deriving DecidableEq, Repr, Inhabited

def CodecError.message : CodecError → String
  | .compress text => s!"compression failed: {text}"
  | .decompress text => s!"decompression failed: {text}"
  | .truncated len => s!"compressed frame is {len} bytes, shorter than its header"
  | .sizeMismatch expected actual =>
    s!"frame header announced {expected} bytes, decompressed {actual}"
  | .implausibleSize claimed payload bound =>
    s!"frame header claims {claimed} bytes, a {payload}-byte payload decodes to at most {bound}"
  | .tooLarge len => s!"payload of {len} bytes does not fit a 32-bit frame header"

/-- A heap refused a request. -/
structure AllocError where
  heap : String
  size : Nat
  align : Nat
  deriving DecidableEq, Repr, Inhabited

def AllocError.message (e : AllocError) : String :=
  s!"heap `{e.heap}` failed to allocate {e.size} bytes (align {e.align})"

/-- The class of a platform error that carries no number of the operating system. -/
inductive IoKind where
  | interrupted
  | notFound
  | wouldBlock
  | unexpectedEof
  | writeZero
  | other
  deriving DecidableEq, Repr, Inhabited

/-- A platform error: one with the operating system's number, or one with a class and a text. -/
inductive IoError where
  | os (number : Int)
  | custom (kind : IoKind) (text : String)
  deriving DecidableEq, Repr, Inhabited

namespace IoError

/-- The operating system's number for an interrupted call. -/
def interruptedNumber : Int := 4

/-- Whether the call was interrupted and is to be made again. -/
def isInterrupted : IoError → Bool
  | .os number => number == interruptedNumber
  | .custom kind _ => kind == .interrupted

/-- The operating system's number, if the error has one. -/
def osNumber? : IoError → Option Int
  | .os number => some number
  | .custom _ _ => none

/-- The text of an error. The wording of numbered errors is the system's own; here they are named by
    their number. -/
def message : IoError → String
  | .os number => s!"os {number}"
  | .custom _ text => text

/-- A write that was given bytes and took none. -/
def acceptedNothing : IoError := .custom .writeZero "backend accepted no bytes"

end IoError

/-- How a piece of work failed. -/
inductive WorkError where
  | path (cause : PathError)
  | io (cause : IoError)
  | codec (cause : CodecError)
  | memory (cause : AllocError)
  /-- The work was dropped before any stage finished it. -/
  | abandoned
  deriving DecidableEq, Repr, Inhabited

namespace WorkError

def message : WorkError → String
  | .path cause => s!"path encoding error: {cause.message}"
  | .io cause => s!"platform I/O error: {cause.message}"
  | .codec cause => s!"codec error: {cause.message}"
  | .memory cause => s!"out of memory: {cause.message}"
  | .abandoned => "work was abandoned before completion"

/-- The number callers see: the operating system's own where there is one, and otherwise one
    negative number per class. -/
def statusCode : WorkError → Int
  | .path _ => -1
  | .io cause => cause.osNumber?.getD (-5)
  | .codec _ => -2
  | .memory _ => -3
  | .abandoned => -4

end WorkError

/-- The status code of a result: zero on success. -/
def statusCode : Except WorkError Unit → Int
  | .ok () => 0
  | .error e => e.statusCode

end FilePipeline
