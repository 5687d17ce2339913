import FilePipeline.Proofs.Backend.Exchanged
import FilePipeline.Proofs.Backend.Observed
import FilePipeline.Proofs.Stage.Effects

/-! # What the I/O stage calls

A piece of work in the I/O stage makes one `Segment` of calls to the backend: none at all if its path is
not taken, an opening that fails, or an opening, what is to be done with the open file (`Body`), and a
closing of the handle that this leaves behind. `processIo_observed` shows it for every way in which the
work may end but a crash, and that listening changes nothing.

How a file is closed has no part in what becomes of the work (`processIo_closedBy`). -/

namespace FilePipeline

variable {σ η κ α : Type}

/-- The setup with a backend that is listened to. -/
def Setup.observed (p : Setup σ η κ) : Setup (Backend.Observed σ η) η κ :=
  ⟨p.config, p.ownHeap, p.backend.observed, p.codec⟩

/-- The setup with a backend that closes its files by the given function. -/
def Setup.closedBy (p : Setup σ η κ) (close : σ → η → IoReply σ Unit) : Setup σ η κ :=
  ⟨p.config, p.ownHeap, p.backend.closedBy close, p.codec⟩

namespace Stage

open Backend (Call IoReply.after ReadReply.after ReadReply.after_cons Observed Request Transfer)

variable {p : Setup σ η κ} {hs : Heaps} {w : Work} {s : σ} {h h' : η} {calls cs : List (Call η)}

/-- How the file of an operation is opened. -/
def opening : Op → OpenMode
  | .read => .sharedRead
  | .write => .createTruncate

/-- The calls for a piece of work between the opening and the closing of its file, which take the handle
    `h` and leave the last one. -/
inductive Body (p : Setup σ η κ) (hs : Heaps) (w : Work) (h : η) : List (Call η) → η → Prop
  /-- The size of the file was not told. -/
  | unsized {f : Fault IoError} {h' : η} (hop : w.op = .read) :
      Body p hs w h [.uses .size h (.error f) h'] h'
  /-- The heap refused the buffer for a file of this size. -/
  | refused {n : Nat} {e : AllocError} {h' : η} (hop : w.op = .read) (he : Refused p hs w n e) :
      Body p hs w h [.uses .size h (.ok n) h'] h'
  /-- There is a buffer, into which the file is read. -/
  | read {n : Nat} {b : Buffer} {h' h'' : η} {cs : List (Call η)} (hop : w.op = .read)
      (hb : (hs.newBuffer (readTarget p w n).1 (readTarget p w n).2 p.config.bufferAlignment).1 =
        .ok b)
      (hcs : Transfer Request.IsRead h' cs h'') :
      Body p hs w h (.uses .size h (.ok n) h' :: cs) h''
  | write {h' : η} {cs : List (Call η)} (hop : w.op = .write)
      (hcs : Transfer (Request.WritesOf w.buffer.bytes) h cs h') : Body p hs w h cs h'

/-- The calls for a piece of work that the I/O stage finds with the backend in the state `s`, if it does
    not crash. -/
inductive Segment (p : Setup σ η κ) (s : σ) (hs : Heaps) (w : Work) : List (Call η) → Prop
  /-- The path is not taken. -/
  | untaken {e : PathError} (ht : p.backend.translate s w.path.text = Attempt.fail e) :
      Segment p s hs w []
  | unopened {path : String} {e : IoError} (ht : p.backend.translate s w.path.text = .ok path) :
      Segment p s hs w [.opens path (opening w.op) (Attempt.fail e)]
  /-- The file is opened, and the handle is closed that is left in the end. -/
  | opened {path : String} {h h' : η} {cs : List (Call η)} {a : Except IoError Unit}
      (ht : p.backend.translate s w.path.text = .ok path) (hcs : Body p hs w h cs h') :
      Segment p s hs w
        (.opens path (opening w.op) (.ok h) :: (cs ++ [.closes h' (Attempt.ofExcept a)]))

/-- The calls for a piece of work that the I/O stage finds with the backend in the state `s`, as they begin
    whether it crashes or not: nothing is called unless the path is taken, and then it is opened first. -/
inductive Begins (p : Setup σ η κ) (s : σ) (w : Work) : List (Call η) → Prop
  | untaken {f : Fault PathError} (ht : p.backend.translate s w.path.text = .error f) : Begins p s w []
  | taken {path : String} {a : Attempt IoError η} {cs : List (Call η)}
      (ht : p.backend.translate s w.path.text = .ok path) :
      Begins p s w (.opens path (opening w.op) a :: cs)

/-! ### Listening -/

/-- What was made of a piece of work, as it is when the calls `cs` were made for it, after others. -/
def heard (r : Processed σ α) (calls cs : List (Call η)) : Processed (Observed σ η) α :=
  ⟨r.result, r.work, r.heaps, ⟨r.state, calls ++ cs⟩⟩

/-- The same while the file is open. -/
def heardOpen (r : Processed (σ × η) α) (calls cs : List (Call η)) : Processed (Observed σ η × η) α :=
  ⟨r.result, r.work, r.heaps, (⟨r.state.1, calls ++ cs⟩, r.state.2)⟩

theorem closing_observed (b : Backend σ η) (r : Processed (σ × η) α) (calls cs : List (Call η)) :
    ∃ cs', closing b.observed (heardOpen r calls cs) = heard (closing b r) calls cs' ∧
      ((closing b r).result.crashed = false →
        ∃ a, cs' = cs ++ [.closes r.state.2 (Attempt.ofExcept a)]) := by
  have hclose : b.observed.close ⟨r.state.1, calls ++ cs⟩ r.state.2 =
      ⟨(b.close r.state.1 r.state.2).result, (b.close r.state.1 r.state.2).state,
        calls ++ (cs ++ [.closes r.state.2 (b.close r.state.1 r.state.2).result])⟩ := by
    rw [← List.append_assoc]
    rfl
  unfold closing heardOpen heard
  dsimp only
  rw [hclose]
  split
  · exact ⟨cs, rfl, fun hc => by cases hc⟩
  · dsimp only
    rcases (b.close r.state.1 r.state.2).result with (e | c) | u
    · exact ⟨_, rfl, fun _ => ⟨.error e, rfl⟩⟩
    · exact ⟨_, rfl, fun hc => by cases hc⟩
    · exact ⟨_, rfl, fun _ => ⟨.ok u, rfl⟩⟩

theorem readContents_observed (p : Setup σ η κ) (hs : Heaps) (hop : w.op = .read) (s : σ) (h : η)
    (calls : List (Call η)) :
    ∃ cs, Body p hs w h cs (readContents p hs w s h).state.2 ∧
      readContents p.observed hs w ⟨s, calls⟩ h = heardOpen (readContents p hs w s h) calls cs := by
  have hsized : p.observed.backend.querySize ⟨s, calls⟩ h =
      ⟨(p.backend.querySize s h).result, (⟨(p.backend.querySize s h).state.1,
        calls ++ [.uses .size h (p.backend.querySize s h).result (p.backend.querySize s h).state.2]⟩,
        (p.backend.querySize s h).state.2)⟩ := rfl
  unfold readContents
  dsimp only
  rw [hsized]
  dsimp only
  split
  · next f hf =>
    rw [hf]
    exact ⟨_, .unsized hop, rfl⟩
  · next n hn =>
    rw [hn]
    have htarget : readTarget p.observed w n = readTarget p w n := rfl
    have halign : p.observed.config = p.config := rfl
    rw [htarget, halign]
    split
    · next e hs' hnew =>
      exact ⟨_, .refused (e := e) hop (congrArg Prod.fst hnew), rfl⟩
    · next b hs' hnew =>
      obtain ⟨cs, hcs, hread⟩ := Backend.readFull_observed p.backend (p.backend.querySize s h).state.1
        (p.backend.querySize s h).state.2 (b.storage.take n)
        (calls ++ [.uses .size h (.ok n) (p.backend.querySize s h).state.2])
      have hread : p.observed.backend.readFull _ _ _ = _ := hread
      rw [hread, ReadReply.after_cons]
      unfold ReadReply.after IoReply.after
      dsimp only
      have hbody := Body.read (h := h) hop (congrArg Prod.fst hnew) hcs
      split
      · exact ⟨_, hbody, rfl⟩
      · split
        · exact ⟨_, hbody, rfl⟩
        · exact ⟨_, hbody, rfl⟩

theorem writeContents_observed (p : Setup σ η κ) (hs : Heaps) (hop : w.op = .write) (s : σ) (h : η)
    (calls : List (Call η)) :
    ∃ cs, Body p hs w h cs (writeContents p hs w s h).state.2 ∧
      writeContents p.observed hs w ⟨s, calls⟩ h = heardOpen (writeContents p hs w s h) calls cs := by
  obtain ⟨cs, hcs, hwrite⟩ := Backend.writeFull_observed p.backend s h w.buffer.bytes calls
  have hwrite : p.observed.backend.writeFull _ _ _ = _ := hwrite
  refine ⟨cs, .write hop hcs, ?_⟩
  unfold writeContents
  rw [hwrite]
  rfl

/-- What is done with the open file decides which segment of calls there is. -/
theorem withFile_observed (hs : Heaps) (s : σ) (w : Work) (calls : List (Call η))
    {body : σ → η → Processed (σ × η) α} {body' : Observed σ η → η → Processed (Observed σ η × η) α}
    (hbody : ∀ s h calls, ∃ cs, Body p hs w h cs (body s h).state.2 ∧
      body' ⟨s, calls⟩ h = heardOpen (body s h) calls cs) :
    ∃ cs, withFile p.observed hs ⟨s, calls⟩ w (opening w.op) body' =
        heard (withFile p hs s w (opening w.op) body) calls cs ∧ Begins p s w cs ∧
      ((withFile p hs s w (opening w.op) body).result.crashed = false → Segment p s hs w cs) := by
  have htranslate : p.observed.backend.translate ⟨s, calls⟩ w.path.text =
      p.backend.translate s w.path.text := rfl
  unfold withFile
  rw [htranslate]
  split
  · next f hf =>
    refine ⟨[], ?_, .untaken hf, fun hcalm => ?_⟩
    · unfold heard
      rw [List.append_nil]
    · rcases f with e | c
      · exact .untaken hf
      · cases hcalm
  · next path ht =>
    have hopen : p.observed.backend.openFile ⟨s, calls⟩ path (opening w.op) =
        ⟨(p.backend.openFile s path (opening w.op)).result,
          ⟨(p.backend.openFile s path (opening w.op)).state, calls ++ [.opens path (opening w.op)
            (p.backend.openFile s path (opening w.op)).result]⟩⟩ := rfl
    dsimp only
    rw [hopen]
    dsimp only
    split
    · next f hf =>
      rw [hf]
      refine ⟨_, rfl, .taken ht, fun hcalm => ?_⟩
      rcases f with e | c
      · exact .unopened ht
      · cases hcalm
    · next h hh =>
      rw [hh]
      obtain ⟨cs, hcs, hbody'⟩ := hbody (p.backend.openFile s path (opening w.op)).state h
        (calls ++ [.opens path (opening w.op) (.ok h)])
      obtain ⟨cs', hclosing, hcalls⟩ := closing_observed p.backend
        (body (p.backend.openFile s path (opening w.op)).state h)
        (calls ++ [.opens path (opening w.op) (.ok h)]) cs
      refine ⟨.opens path (opening w.op) (.ok h) :: cs', ?_, .taken ht, fun hcalm => ?_⟩
      · rw [hbody']
        refine Eq.trans hclosing ?_
        unfold heard
        rw [List.append_assoc, List.singleton_append]
      · obtain ⟨a, rfl⟩ := hcalls hcalm
        exact .opened ht hcs

/-- What was made of a write, with the number of bytes taken as its size. -/
def sized (r : Processed σ Nat) : Processed σ Unit :=
  match r.result with
  | .ok n => ⟨.ok (), { r.work with size := n }, r.heaps, r.state⟩
  | .error f => ⟨.error f, r.work, r.heaps, r.state⟩

theorem sized_heard (r : Processed σ Nat) (calls cs : List (Call η)) :
    sized (heard r calls cs) = heard (sized r) calls cs := by
  rcases r with ⟨f | n, w, hs, s⟩ <;> rfl

theorem crashed_sized (r : Processed σ Nat) : (sized r).result.crashed = r.result.crashed := by
  rcases r with ⟨(e | c) | n, w, hs, s⟩ <;> rfl

theorem processIo_of_write (p : Setup σ η κ) (hs : Heaps) (s : σ) (hop : w.op = .write) :
    processIo p hs s w = sized (withFile p hs s w (opening w.op) (writeContents p hs w)) := by
  unfold processIo
  rw [hop]
  rfl

theorem processIo_of_read (p : Setup σ η κ) (hs : Heaps) (s : σ) (hop : w.op = .read) :
    processIo p hs s w = withFile p hs s w (opening w.op) (readContents p hs w) := by
  unfold processIo
  rw [hop]
  rfl

/-- A piece of work comes out of the I/O stage the same if the backend is listened to, and makes one
    segment of calls unless the stage crashes. -/
theorem processIo_observed (p : Setup σ η κ) (hs : Heaps) (s : σ) (w : Work) (calls : List (Call η)) :
    ∃ cs, processIo p.observed hs ⟨s, calls⟩ w = heard (processIo p hs s w) calls cs ∧
      Begins p s w cs ∧ ((processIo p hs s w).result.crashed = false → Segment p s hs w cs) := by
  cases hop : w.op with
  | read =>
    rw [processIo_of_read _ _ _ hop, processIo_of_read _ _ _ hop]
    exact withFile_observed hs s w calls (readContents_observed p hs hop)
  | write =>
    obtain ⟨cs, heq, hseg⟩ := withFile_observed hs s w calls (writeContents_observed p hs hop)
    rw [processIo_of_write _ _ _ hop, processIo_of_write _ _ _ hop, heq, sized_heard, crashed_sized]
    exact ⟨cs, rfl, hseg⟩

/-! ### Closing -/

/-- Two ways to process a piece of work that differ at most in the backend they leave. -/
structure SameWork (r r' : Processed σ α) : Prop where
  result : r'.result = r.result
  work : r'.work = r.work
  heaps : r'.heaps = r.heaps

theorem SameWork.sized {r r' : Processed σ Nat} (h : SameWork r r') :
    SameWork (sized r) (sized r') := by
  rcases r with ⟨res, w, hs, s⟩
  rcases r' with ⟨res', w', hs', s'⟩
  obtain ⟨rfl, rfl, rfl⟩ := h
  rcases res' with f | n <;> exact ⟨rfl, rfl, rfl⟩

theorem withFile_closedBy {close : σ → η → IoReply σ Unit} {mode : OpenMode}
    {body : σ → η → Processed (σ × η) α}
    (hcalm : (withFile p hs s w mode body).result.crashed = false)
    (hcalm' : (withFile (p.closedBy close) hs s w mode body).result.crashed = false) :
    SameWork (withFile p hs s w mode body) (withFile (p.closedBy close) hs s w mode body) := by
  have htranslate : (p.closedBy close).backend.translate = p.backend.translate := rfl
  have hopen : (p.closedBy close).backend.openFile = p.backend.openFile := rfl
  unfold withFile at hcalm hcalm' ⊢
  rw [htranslate, hopen] at hcalm' ⊢
  split
  · exact ⟨rfl, rfl, rfl⟩
  · next path ht =>
    rw [ht] at hcalm hcalm'
    dsimp only at hcalm hcalm' ⊢
    split
    · exact ⟨rfl, rfl, rfl⟩
    · next h hh =>
      rw [hh] at hcalm hcalm'
      refine ⟨?_, by rw [work_closing, work_closing], by rw [heaps_closing, heaps_closing]⟩
      rw [result_closing hcalm, result_closing hcalm']

theorem readContents_closedBy (p : Setup σ η κ) (close : σ → η → IoReply σ Unit) :
    readContents (p.closedBy close) = readContents p := by
  funext hs w s h
  have hread : (p.closedBy close).backend.read = p.backend.read := rfl
  have hfull : (p.closedBy close).backend.readFull = p.backend.readFull := by
    funext s h buf
    exact Backend.readFull_congr hread s h buf
  unfold readContents
  rw [hfull]
  rfl

theorem writeContents_closedBy (p : Setup σ η κ) (close : σ → η → IoReply σ Unit) :
    writeContents (p.closedBy close) = writeContents p := by
  funext hs w s h
  have hwrite : (p.closedBy close).backend.write = p.backend.write := rfl
  have hfull : (p.closedBy close).backend.writeFull = p.backend.writeFull := by
    funext s h data
    exact Backend.writeFull_congr hwrite s h data
  unfold writeContents
  rw [hfull]

/-- As long as nothing crashes, what becomes of a piece of work does not depend on how its file is
    closed. -/
theorem processIo_closedBy {close : σ → η → IoReply σ Unit}
    (hcalm : (processIo p hs s w).result.crashed = false)
    (hcalm' : (processIo (p.closedBy close) hs s w).result.crashed = false) :
    SameWork (processIo p hs s w) (processIo (p.closedBy close) hs s w) := by
  cases hop : w.op with
  | read =>
    rw [processIo_of_read _ _ _ hop] at hcalm
    rw [processIo_of_read _ _ _ hop, readContents_closedBy] at hcalm'
    rw [processIo_of_read _ _ _ hop, processIo_of_read _ _ _ hop, readContents_closedBy]
    exact withFile_closedBy hcalm hcalm'
  | write =>
    rw [processIo_of_write _ _ _ hop, crashed_sized] at hcalm
    rw [processIo_of_write _ _ _ hop, crashed_sized, writeContents_closedBy] at hcalm'
    rw [processIo_of_write _ _ _ hop, processIo_of_write _ _ _ hop, writeContents_closedBy]
    exact (withFile_closedBy hcalm hcalm').sized

end Stage

end FilePipeline
