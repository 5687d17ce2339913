import FilePipeline.Backend

/-! # A scripted backend

Files kept in memory, for fault injection: each path can be given faults, and a script that says how
much each read and write moves or how it fails. All calls are logged with their answers. A script
belongs to its path and goes on from one opening to the next; past its end everything possible is
moved. -/

namespace FilePipeline.Backend.Scripted

/-- What one read or write does. -/
inductive Move where
  /-- Moves at most so many bytes. -/
  | atMost (n : Nat)
  /-- Moves nothing and answers with this count. -/
  | lie (n : Nat)
  | fail (e : IoError)
  | crash
  deriving Repr, Inhabited

/-- How opening a path goes wrong. -/
inductive OpenFault where
  | fail (e : IoError)
  /-- Opens the file as usual and then crashes. -/
  | crash
  deriving Repr

/-- The faults of a path. -/
structure Faults where
  openFile : Option OpenFault := none
  /-- What a size query answers instead of the size. -/
  size : Option (Except IoError Nat) := none
  reads : List Move := []
  writes : List Move := []
  close : Option IoError := none
  deriving Inhabited

/-- A call as it is logged: what was asked for, and of reads and writes how much. -/
inductive Request where
  | openFile (mode : OpenMode)
  | size
  | read (want : Nat)
  | write (want : Nat)
  | close
  deriving DecidableEq, Repr

/-- A logged call: its answer is a count, nothing, or an error. -/
structure Call where
  request : Request
  path : String
  answer : Except IoError (Option Nat)

def Call.text (c : Call) : String :=
  let asked := match c.request with
    | .openFile .sharedRead => s!"open SharedRead {c.path}"
    | .openFile .createTruncate => s!"open CreateTruncate {c.path}"
    | .size => s!"size {c.path}"
    | .read want => s!"read {c.path} {want}"
    | .write want => s!"write {c.path} {want}"
    | .close => s!"close {c.path}"
  let answered := match c.answer with
    | .ok none => "ok"
    | .ok (some n) => toString n
    | .error e => s!"err {e.message}"
  asked ++ " = " ++ answered

/-- The state: files and faults by path, and the calls so far, newest first. -/
structure Store where
  files : String → Option (List UInt8) := fun _ => none
  faults : String → Faults := fun _ => {}
  calls : List Call := []

instance : Inhabited Store := ⟨{}⟩

/-- An open file: its path, and where the next read or write starts. -/
structure Handle where
  path : String
  position : Nat
  deriving DecidableEq, Repr, Inhabited

namespace Store

def put (s : Store) (path : String) (bytes : List UInt8) : Store :=
  { s with files := fun p => if p = path then some bytes else s.files p }

/-- The store after the faults of a path were replaced. -/
def setFaults (s : Store) (path : String) (f : Faults) : Store :=
  { s with faults := fun p => if p = path then f else s.faults p }

def log (s : Store) (path : String) (request : Request) (answer : Except IoError (Option Nat)) :
    Store :=
  { s with calls := ⟨request, path, answer⟩ :: s.calls }

def forgetCalls (s : Store) : Store := { s with calls := [] }

/-- The contents of a file; none if there is no file. -/
def contents (s : Store) (path : String) : List UInt8 := (s.files path).getD []

/-- The next read of a path, and the store after it was taken from the script. -/
def nextRead (s : Store) (path : String) : Option Move × Store :=
  let f := s.faults path
  match f.reads with
  | [] => (none, s)
  | m :: rest => (some m, s.setFaults path { f with reads := rest })

/-- The next write of a path, and the store after it was taken from the script. -/
def nextWrite (s : Store) (path : String) : Option Move × Store :=
  let f := s.faults path
  match f.writes with
  | [] => (none, s)
  | m :: rest => (some m, s.setFaults path { f with writes := rest })

end Store

/-- The crash of a scripted call. -/
def scriptedCrash : Crash := .component "mock backend panic"

/-! ### Calls -/

/-- The file after opening it, if it can be opened. -/
def opened (s : Store) (path : String) : OpenMode → Except IoError Store
  | .sharedRead => if (s.files path).isSome then .ok s else .error (.os 2)
  | .createTruncate => .ok (s.put path [])

def openFile (s : Store) (path : String) (mode : OpenMode) : IoReply Store Handle :=
  match (s.faults path).openFile with
  | some (.fail e) => ⟨Attempt.fail e, s.log path (.openFile mode) (.error e)⟩
  | fault =>
    match opened s path mode with
    | .error e =>
      let s := s.log path (.openFile mode) (.error e)
      if fault.isSome then ⟨Attempt.crash scriptedCrash, s⟩ else ⟨Attempt.fail e, s⟩
    | .ok s =>
      let s := s.log path (.openFile mode) (.ok none)
      if fault.isSome then ⟨Attempt.crash scriptedCrash, s⟩ else ⟨.ok ⟨path, 0⟩, s⟩

def querySize (s : Store) (h : Handle) : IoReply (Store × Handle) Nat :=
  match ((s.faults h.path).size).getD (.ok (s.contents h.path).length) with
  | .ok n => ⟨.ok n, s.log h.path .size (.ok (some n)), h⟩
  | .error e => ⟨Attempt.fail e, s.log h.path .size (.error e), h⟩

def readSome (s : Store) (h : Handle) (dst : Span) (n : Nat) : ReadReply (Store × Handle) :=
  let bytes := ((s.contents h.path).drop h.position).take (min n dst.size)
  ⟨⟨.ok bytes.length, s.log h.path (.read dst.size) (.ok (some bytes.length)),
    { h with position := h.position + bytes.length }⟩, (dst.overlay 0 (Span.ofList bytes)).byte⟩

def read (s : Store) (h : Handle) (dst : Span) : ReadReply (Store × Handle) :=
  match s.nextRead h.path with
  | (none, s) => readSome s h dst dst.size
  | (some (.atMost n), s) => readSome s h dst n
  | (some (.lie n), s) => ⟨⟨.ok n, s.log h.path (.read dst.size) (.ok (some n)), h⟩, dst.byte⟩
  | (some (.fail e), s) => ⟨⟨Attempt.fail e, s.log h.path (.read dst.size) (.error e), h⟩, dst.byte⟩
  | (some .crash, s) => ⟨⟨Attempt.crash scriptedCrash, s, h⟩, dst.byte⟩

def writeSome (s : Store) (h : Handle) (src : List UInt8) (n : Nat) : IoReply (Store × Handle) Nat :=
  let bytes := src.take n
  let file := s.contents h.path
  let s := s.put h.path (file.take h.position ++ bytes ++ file.drop (h.position + bytes.length))
  ⟨.ok bytes.length, s.log h.path (.write src.length) (.ok (some bytes.length)),
    { h with position := h.position + bytes.length }⟩

def write (s : Store) (h : Handle) (src : List UInt8) : IoReply (Store × Handle) Nat :=
  match s.nextWrite h.path with
  | (none, s) => writeSome s h src src.length
  | (some (.atMost n), s) => writeSome s h src n
  | (some (.lie n), s) => ⟨.ok n, s.log h.path (.write src.length) (.ok (some n)), h⟩
  | (some (.fail e), s) => ⟨Attempt.fail e, s.log h.path (.write src.length) (.error e), h⟩
  | (some .crash, s) => ⟨Attempt.crash scriptedCrash, s, h⟩

def close (s : Store) (h : Handle) : IoReply Store Unit :=
  match (s.faults h.path).close with
  | some e => ⟨Attempt.fail e, s.log h.path .close (.error e)⟩
  | none => ⟨.ok (), s.log h.path .close (.ok none)⟩

/-! ### The backend -/

/-- What is left of the scripts of a handle's path. -/
def patience (p : Store × Handle) : Nat :=
  (p.1.faults p.2.path).reads.length + (p.1.faults p.2.path).writes.length

theorem read_patience (s : Store) (h : Handle) (dst : Span)
    (hi : interrupted (read s h dst).result = true) :
    patience (read s h dst).state < patience (s, h) := by
  unfold read Store.nextRead at *
  dsimp only at *
  cases hr : (s.faults h.path).reads with
  | nil => simp [hr, readSome, interrupted] at hi
  | cons m rest =>
    rw [hr] at hi
    cases m <;>
      simp_all [readSome, interrupted, patience, Store.setFaults, Store.log, Attempt.fail,
        Attempt.crash]

theorem write_patience (s : Store) (h : Handle) (src : List UInt8)
    (hi : interrupted (write s h src).result = true) :
    patience (write s h src).state < patience (s, h) := by
  unfold write Store.nextWrite at *
  dsimp only at *
  cases hr : (s.faults h.path).writes with
  | nil => simp [hr, writeSome, interrupted] at hi
  | cons m rest =>
    rw [hr] at hi
    cases m <;>
      simp_all [writeSome, interrupted, patience, Store.setFaults, Store.log, Attempt.fail,
        Attempt.crash]

def backend : Backend Store Handle where
  openFile := openFile
  querySize := querySize
  read := read
  write := write
  close := close
  patience := patience
  read_patience := read_patience
  write_patience := write_patience

end FilePipeline.Backend.Scripted
