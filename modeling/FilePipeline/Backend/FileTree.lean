import FilePipeline.Backend

/-! # A directory tree

A file system of directories and files, seen from a working directory. `Tree.find` walks a path: every
part but the last has to name a directory, a part longer than 255 bytes is refused where it is looked
up, and a slash at the end asks for a directory. Errors carry the usual numbers. Directories can be
opened for reading, and only the reading itself fails. -/

namespace FilePipeline.Backend.FileTree

/-- There is no such file or directory. -/
def noEntry : IoError := .os 2

/-- A part of the path that has to be a directory is a file. -/
def notDirectory : IoError := .os 20

/-- A directory stands where a file was asked for. -/
def isDirectory : IoError := .os 21

/-- A part of the path is too long. -/
def nameTooLong : IoError := .os 36

/-- The longest part of a path. -/
def maxName : Nat := 255

/-- The size a directory reports. -/
def directorySize : Nat := 4096

/-- A place in the tree: the names from the top down to it. -/
abbrev Place := List String

/-- What stands at a place. -/
inductive Node where
  | file (bytes : List UInt8)
  | directory
  deriving DecidableEq, Repr

/-- A tree: what stands at each place. The top is always a directory. -/
structure Tree where
  node : Place → Option Node

/-- The working directory, a directory without a name of its own below the top. -/
def workingPlace : Place := [""]

namespace Tree

def empty : Tree :=
  ⟨fun p => if p = [] ∨ p = workingPlace then some .directory else none⟩

instance : Inhabited Tree := ⟨empty⟩

def set (t : Tree) (place : Place) (n : Node) : Tree :=
  ⟨fun p => if p = place then some n else t.node p⟩

/-- What stands at a place that a walk has reached. -/
def nodeAt (t : Tree) (place : Place) : Except IoError Node :=
  match t.node place with
  | some n => .ok n
  | none => .error noEntry

/-- One step of a walk, from a place by the next part of the path. -/
def enter (t : Tree) (place : Place) (part : String) : Except IoError Place :=
  match t.nodeAt place with
  | .error e => .error e
  | .ok (.file _) => .error notDirectory
  | .ok .directory =>
    if part = "." then .ok place
    else if part = ".." then .ok place.dropLast
    else if maxName < part.utf8ByteSize then .error nameTooLong
    else .ok (place ++ [part])

def walk (t : Tree) : Place → List String → Except IoError Place
  | place, [] => .ok place
  | place, part :: rest =>
    match t.enter place part with
    | .error e => .error e
    | .ok next => t.walk next rest

end Tree

def parts (path : String) : List String := (path.splitOn "/").filter (· ≠ "")

/-- Where the walk of a path starts. -/
def startOf (path : String) : Place := if path.startsWith "/" then [] else workingPlace

/-- Whether a path asks for a directory by a slash at its end. -/
def asksDirectory (path : String) : Bool := path.endsWith "/"

/-- Whether the last part of a path is a name and not a dot. -/
def endsInName (path : String) : Bool :=
  match (parts path).getLast? with
  | some p => p ≠ "." && p ≠ ".."
  | none => false

namespace Tree

/-- The place and node a path names. -/
def find (t : Tree) (path : String) : Except IoError (Place × Node) :=
  match t.walk (startOf path) (parts path) with
  | .error e => .error e
  | .ok place =>
    match t.nodeAt place with
    | .error e => .error e
    | .ok .directory => .ok (place, .directory)
    | .ok (.file bytes) =>
      if asksDirectory path then .error notDirectory else .ok (place, .file bytes)

/-- The place where a file of this path is created or emptied. -/
def target (t : Tree) (path : String) : Except IoError Place :=
  match t.walk (startOf path) (parts path).dropLast with
  | .error e => .error e
  | .ok parent =>
    match t.nodeAt parent with
    | .error e => .error e
    | .ok (.file _) => .error notDirectory
    | .ok .directory =>
      if asksDirectory path ∨ ¬ endsInName path then .error isDirectory
      else
        match t.walk (startOf path) (parts path) with
        | .error e => .error e
        | .ok place =>
          match t.node place with
          | some .directory => .error isDirectory
          | _ => .ok place

/-- The tree after a file was written, if it can be. -/
def put? (t : Tree) (path : String) (bytes : List UInt8) : Except IoError Tree :=
  (t.target path).map fun place => t.set place (.file bytes)

/-- The contents of the file at a path, if it is one. -/
def get? (t : Tree) (path : String) : Option (List UInt8) :=
  match t.find path with
  | .ok (_, .file bytes) => some bytes
  | _ => none

/-- The tree after a directory and those above it were made. -/
def makeDirectory (t : Tree) (path : String) : Tree :=
  let step (acc : Place × Tree) (part : String) : Place × Tree :=
    match acc.2.enter acc.1 part with
    | .error _ => acc
    | .ok next => (next, if (acc.2.node next).isNone then acc.2.set next .directory else acc.2)
  ((parts path).foldl step (startOf path, t)).2

end Tree

/-- An open file or directory: its place, and where the next read or write starts. -/
structure Handle where
  place : Place
  position : Nat
  deriving DecidableEq, Repr, Inhabited

/-! ### Calls -/

def openFile (t : Tree) (path : String) : OpenMode → IoReply Tree Handle
  | .sharedRead =>
    match t.find path with
    | .error e => ⟨Attempt.fail e, t⟩
    | .ok (place, _) => ⟨.ok ⟨place, 0⟩, t⟩
  | .createTruncate =>
    match t.target path with
    | .error e => ⟨Attempt.fail e, t⟩
    | .ok place => ⟨.ok ⟨place, 0⟩, t.set place (.file [])⟩

def querySize (t : Tree) (h : Handle) : IoReply (Tree × Handle) Nat :=
  match t.node h.place with
  | some (.file bytes) => ⟨.ok bytes.length, t, h⟩
  | _ => ⟨.ok directorySize, t, h⟩

def read (t : Tree) (h : Handle) (dst : Span) : ReadReply (Tree × Handle) :=
  match t.node h.place with
  | some (.file file) =>
    let bytes := (file.drop h.position).take dst.size
    ⟨⟨.ok bytes.length, t, { h with position := h.position + bytes.length }⟩,
      (dst.overlay 0 (Span.ofList bytes)).byte⟩
  | _ => ⟨⟨Attempt.fail isDirectory, t, h⟩, dst.byte⟩

def write (t : Tree) (h : Handle) (src : List UInt8) : IoReply (Tree × Handle) Nat :=
  match t.node h.place with
  | some (.file file) =>
    ⟨.ok src.length,
      t.set h.place (.file (file.take h.position ++ src ++ file.drop (h.position + src.length))),
      { h with position := h.position + src.length }⟩
  | _ => ⟨Attempt.fail isDirectory, t, h⟩

/-- The backend over a directory tree. No call of it is ever interrupted. -/
def backend : Backend Tree Handle where
  openFile := openFile
  querySize := querySize
  read := read
  write := write
  close t _ := ⟨.ok (), t⟩
  patience _ := 0
  read_patience t h dst hi := by
    unfold read at hi
    split at hi <;> simp [interrupted, Attempt.fail, isDirectory, IoError.isInterrupted,
      IoError.interruptedNumber] at hi
  write_patience t h src hi := by
    unfold write at hi
    split at hi <;> simp [interrupted, Attempt.fail, isDirectory, IoError.isInterrupted,
      IoError.interruptedNumber] at hi

end FilePipeline.Backend.FileTree
