import FilePipeline.Proofs.Backend.Delays
import FilePipeline.Proofs.Backend.Slow

/-! # Scripts with interruptions put in

A call on a scripted file plays the next move of the script of its path (`read_cons`, `write_cons`), or
moves all it can if there is none left. If interruptions are put into a script (`Stretched`), the calls that
play them do nothing but use them up. So the store with the longer scripts delays the one with the shorter
ones (`delays_backend`), which whole transfers do not notice. -/

namespace FilePipeline.Backend.Scripted

variable {s s' : Store} {h : Handle}

/-! ### Moves -/

/-- The store with another script for the reads of a path. -/
def Store.withReads (s : Store) (path : String) (ms : List Move) : Store :=
  s.setFaults path { s.faults path with reads := ms }

/-- The store with another script for the writes of a path. -/
def Store.withWrites (s : Store) (path : String) (ms : List Move) : Store :=
  s.setFaults path { s.faults path with writes := ms }

def Move.read (m : Move) (s : Store) (h : Handle) (dst : Span) : ReadReply (Store × Handle) :=
  match m with
  | .atMost n => readSome s h dst n
  | .lie n => ⟨⟨.ok n, s.log h.path (.read dst.size) (.ok (some n)), h⟩, dst.byte⟩
  | .fail e => ⟨⟨Attempt.fail e, s.log h.path (.read dst.size) (.error e), h⟩, dst.byte⟩
  | .crash => ⟨⟨Attempt.crash scriptedCrash, s, h⟩, dst.byte⟩

def Move.write (m : Move) (s : Store) (h : Handle) (src : List UInt8) : IoReply (Store × Handle) Nat :=
  match m with
  | .atMost n => writeSome s h src n
  | .lie n => ⟨.ok n, s.log h.path (.write src.length) (.ok (some n)), h⟩
  | .fail e => ⟨Attempt.fail e, s.log h.path (.write src.length) (.error e), h⟩
  | .crash => ⟨Attempt.crash scriptedCrash, s, h⟩

theorem read_nil (hr : (s.faults h.path).reads = []) (dst : Span) :
    read s h dst = readSome s h dst dst.size := by
  unfold read Store.nextRead
  dsimp only
  rw [hr]

theorem read_cons {m : Move} {ms : List Move} (hr : (s.faults h.path).reads = m :: ms) (dst : Span) :
    read s h dst = m.read (s.withReads h.path ms) h dst := by
  unfold read Store.nextRead
  dsimp only
  rw [hr]
  cases m <;> rfl

theorem write_nil (hw : (s.faults h.path).writes = []) (src : List UInt8) :
    write s h src = writeSome s h src src.length := by
  unfold write Store.nextWrite
  dsimp only
  rw [hw]

theorem write_cons {m : Move} {ms : List Move} (hw : (s.faults h.path).writes = m :: ms)
    (src : List UInt8) : write s h src = m.write (s.withWrites h.path ms) h src := by
  unfold write Store.nextWrite
  dsimp only
  rw [hw]
  cases m <;> rfl

@[simp] theorem faults_withReads (s : Store) (path : String) (ms : List Move) :
    (s.withReads path ms).faults path = { s.faults path with reads := ms } := if_pos rfl

@[simp] theorem faults_withWrites (s : Store) (path : String) (ms : List Move) :
    (s.withWrites path ms).faults path = { s.faults path with writes := ms } := if_pos rfl

/-! ### Interruptions put into scripts -/

/-- That an error reports an interruption, by its number or by its class. -/
def Interrupts (e : IoError) : Prop := e = .os 4 ∨ ∃ text, e = .custom .interrupted text

theorem isInterrupted_iff {e : IoError} : e.isInterrupted = true ↔ Interrupts e := by
  unfold Interrupts
  cases e with
  | os number =>
    show (number == 4) = true ↔ _
    simp
  | custom kind text =>
    show (kind == .interrupted) = true ↔ _
    simp

/-- The script `ms'` is `ms` with interruptions put in. -/
inductive Stretched : List Move → List Move → Prop
  | nil : Stretched [] []
  | keep (m : Move) {ms ms' : List Move} (h : Stretched ms ms') : Stretched (m :: ms) (m :: ms')
  | insert {e : IoError} (he : Interrupts e) {ms ms' : List Move} (h : Stretched ms ms') :
      Stretched ms (.fail e :: ms')

theorem Stretched.refl : ∀ ms, Stretched ms ms
  | [] => .nil
  | m :: ms => .keep m (.refl ms)

/-- The handles stand in the same files, and the scripts of their file differ in interruptions put into
    those of the first store. -/
structure SameButInterrupted (x' x : Store × Handle) : Prop where
  handle : x'.2 = x.2
  files : x'.1.files = x.1.files
  reads : Stretched (x.1.faults x.2.path).reads (x'.1.faults x.2.path).reads
  writes : Stretched (x.1.faults x.2.path).writes (x'.1.faults x.2.path).writes

theorem contents_congr (h : s'.files = s.files) (path : String) : s'.contents path = s.contents path := by
  unfold Store.contents
  rw [h]

theorem SameButInterrupted.readSome (hx : SameButInterrupted (s', h) (s, h)) (dst : Span) (n : Nat) :
    SameReply SameButInterrupted (readSome s' h dst n).toIoReply (readSome s h dst n).toIoReply ∧
      (readSome s' h dst n).written = (readSome s h dst n).written := by
  have hcontents := contents_congr hx.files h.path
  unfold Scripted.readSome
  rw [hcontents]
  exact ⟨⟨rfl, rfl, hx.files, hx.reads, hx.writes⟩, rfl⟩

theorem SameButInterrupted.read (hx : SameButInterrupted (s', h) (s, h)) (m : Move) (dst : Span) :
    SameReply SameButInterrupted (m.read s' h dst).toIoReply (m.read s h dst).toIoReply ∧
      (m.read s' h dst).written = (m.read s h dst).written := by
  cases m with
  | atMost n => exact hx.readSome dst n
  | lie | fail | crash => exact ⟨⟨rfl, rfl, hx.files, hx.reads, hx.writes⟩, rfl⟩

theorem SameButInterrupted.writeSome (hx : SameButInterrupted (s', h) (s, h)) (src : List UInt8)
    (n : Nat) :
    SameReply SameButInterrupted (writeSome s' h src n) (writeSome s h src n) := by
  have hcontents := contents_congr hx.files h.path
  unfold Scripted.writeSome
  rw [hcontents]
  refine ⟨rfl, rfl, ?_, hx.reads, hx.writes⟩
  funext path
  show (if path = h.path then _ else s'.files path) = if path = h.path then _ else s.files path
  rw [show s'.files = s.files from hx.files]

theorem SameButInterrupted.write (hx : SameButInterrupted (s', h) (s, h)) (m : Move)
    (src : List UInt8) : SameReply SameButInterrupted (m.write s' h src) (m.write s h src) := by
  cases m with
  | atMost n => exact hx.writeSome src n
  | lie | fail | crash => exact ⟨rfl, rfl, hx.files, hx.reads, hx.writes⟩

theorem delays_backend : backend.Delays backend SameButInterrupted where
  read := by
    intro s' h' s h dst hx
    obtain rfl : h' = h := hx.handle
    have hreads : Stretched (s.faults h'.path).reads (s'.faults h'.path).reads := hx.reads
    show interrupted (Scripted.read s' h' dst).result = true ∧
        SameButInterrupted (Scripted.read s' h' dst).state (s, h') ∧
          (⟨dst.size, (Scripted.read s' h' dst).written⟩ : Span).Agrees dst ∨
      SameReply SameButInterrupted (Scripted.read s' h' dst).toIoReply
          (Scripted.read s h' dst).toIoReply ∧
        (⟨dst.size, (Scripted.read s' h' dst).written⟩ : Span).Agrees
          ⟨dst.size, (Scripted.read s h' dst).written⟩
    generalize hms : (s.faults h'.path).reads = ms at hreads
    generalize hms' : (s'.faults h'.path).reads = ms' at hreads
    cases hreads with
    | nil =>
      obtain ⟨hsame, hwritten⟩ := hx.readSome dst dst.size
      rw [read_nil hms, read_nil hms', hwritten]
      exact Or.inr ⟨hsame, .refl _⟩
    | @keep m ms ms' hrest =>
      have hnext : SameButInterrupted (s'.withReads h'.path ms', h') (s.withReads h'.path ms, h') :=
        ⟨rfl, hx.files, by simpa using hrest, by simpa using hx.writes⟩
      obtain ⟨hsame, hwritten⟩ := hnext.read m dst
      rw [read_cons hms, read_cons hms', hwritten]
      exact Or.inr ⟨hsame, .refl _⟩
    | @insert e he ms ms' hrest =>
      have hnext : SameButInterrupted (s'.withReads h'.path ms', h') (s, h') :=
        ⟨rfl, hx.files, by simpa [hms] using hrest, by simpa using hx.writes⟩
      rw [read_cons hms']
      exact Or.inl ⟨isInterrupted_iff.mpr he, ⟨rfl, hnext.files, hnext.reads, hnext.writes⟩, .refl _⟩
  write := by
    intro s' h' s h src hx
    obtain rfl : h' = h := hx.handle
    have hwrites : Stretched (s.faults h'.path).writes (s'.faults h'.path).writes := hx.writes
    show interrupted (Scripted.write s' h' src).result = true ∧
        SameButInterrupted (Scripted.write s' h' src).state (s, h') ∨
      SameReply SameButInterrupted (Scripted.write s' h' src) (Scripted.write s h' src)
    generalize hms : (s.faults h'.path).writes = ms at hwrites
    generalize hms' : (s'.faults h'.path).writes = ms' at hwrites
    cases hwrites with
    | nil =>
      rw [write_nil hms, write_nil hms']
      exact Or.inr (hx.writeSome src src.length)
    | @keep m ms ms' hrest =>
      have hnext : SameButInterrupted (s'.withWrites h'.path ms', h')
          (s.withWrites h'.path ms, h') :=
        ⟨rfl, hx.files, by simpa using hx.reads, by simpa using hrest⟩
      rw [write_cons hms, write_cons hms']
      exact Or.inr (hnext.write m src)
    | @insert e he ms ms' hrest =>
      have hnext : SameButInterrupted (s'.withWrites h'.path ms', h') (s, h') :=
        ⟨rfl, hx.files, by simpa using hx.reads, by simpa [hms] using hrest⟩
      rw [write_cons hms']
      exact Or.inl ⟨isInterrupted_iff.mpr he, rfl, hnext.files, hnext.reads, hnext.writes⟩

end FilePipeline.Backend.Scripted
