import FilePipeline.Proofs.Dispatcher.Log

/-! # Work in line

Of all that a dispatcher has accepted, the work before the I/O worker and the work in the compression
stage stand in line: `near` and `far`, the next to be processed first, and `back` is what the I/O worker
has read and is about to hand back. A step that is neither a turn nor an acceptance moves work from the
front of one line to the end of another, or drops it (`line_of_transition`); a turn takes the first of a
line (`line_of_turn`).

The way to the I/O stage that begins at a queue is its `lane`: the lane of the compression queue leads
through both lines. What is `returning` goes from the I/O stage through the compression stage. Nothing
overtakes within a lane (`Line.Step.lane`), nor on the way back (`Line.Step.returning`). -/

namespace FilePipeline

/-- What stays of a piece of work on its way, and decides where it goes. -/
structure Tag where
  id : WorkId
  op : Op
  compressed : Bool
  deriving DecidableEq, Repr

/-- The first stage of its route. -/
def Tag.route (t : Tag) : Stage := if t.op = .write ∧ t.compressed = true then .compression else .io

theorem Tag.op_of_route {t : Tag} (h : t.route = .compression) : t.op = .write := by
  unfold Tag.route at h
  split at h
  · next hc => exact hc.1
  · cases h

def Work.tag (w : Work) : Tag := ⟨w.id, w.op, w.compressed⟩

theorem Work.SameAs.tag {w w' : Work} (h : w'.SameAs w) : w'.tag = w.tag := by
  unfold Work.tag
  rw [h.id, h.op, h.compressed]

/-- The work that a worker is to process. -/
def Task.inTurn : Task → List Work
  | .busy w => [w]
  | _ => []

/-- The work that a worker has processed and is to hand on. -/
def Task.outgoing : Task → List Work
  | .handing w => [w]
  | _ => []

/-! ### Lines -/

/-- The lines of work, by tags. -/
structure Line where
  near : List Tag
  far : List Tag
  back : List Tag

namespace Line

/-- The work that came in at a queue and is to go through the I/O stage, the next first. -/
def lane (l : Line) : Stage → List Tag
  | .io => l.near.filter (·.route = .io)
  | .compression => l.near.filter (·.route = .compression) ++ l.far.filter (·.op = .write)

/-- The work that has been through the I/O stage and is to go through the compression stage, the next
    first. -/
def returning (l : Line) : List Tag := l.far.filter (·.op = .read) ++ l.back

/-- What a step does that is no turn. -/
inductive Step : Line → Line → Prop
  | same (l : Line) : Step l l
  | forth {n f b : List Tag} {t : Tag} (h : t.route = .compression) :
      Step ⟨n, t :: f, b⟩ ⟨n ++ [t], f, b⟩
  | forthRefused {n f b : List Tag} {t : Tag} : Step ⟨n, t :: f, b⟩ ⟨n, f, b⟩
  | back {n f : List Tag} {t : Tag} (h : t.op = .read) : Step ⟨n, f, [t]⟩ ⟨n, f ++ [t], []⟩
  /-- A compression stage that refuses work has none itself. -/
  | backRefused {n : List Tag} {t : Tag} : Step ⟨n, [], [t]⟩ ⟨n, [], []⟩
  | clearNear {n f b : List Tag} : Step ⟨n, f, b⟩ ⟨[], f, b⟩
  | clearFar {n f b : List Tag} : Step ⟨n, f, b⟩ ⟨n, [], b⟩

/-- What a turn of a worker does: the first of a line is processed, and is then perhaps to be handed
    on. -/
inductive Takes : Stage → Tag → Bool → Line → Line → Prop
  | io {n f : List Tag} {t : Tag} : Takes .io t false ⟨t :: n, f, []⟩ ⟨n, f, []⟩
  | ioOn {n f : List Tag} {t : Tag} (h : t.op = .read) : Takes .io t true ⟨t :: n, f, []⟩ ⟨n, f, [t]⟩
  | compression {n f b : List Tag} {t : Tag} :
      Takes .compression t false ⟨n, t :: f, b⟩ ⟨n, f, b⟩
  | compressionOn {n f b : List Tag} {t : Tag} (h : t.op = .write) :
      Takes .compression t true ⟨n, t :: f, b⟩ ⟨n, t :: f, b⟩

/-- What a queue does that takes in what is pushed. -/
def push (l : Line) (t : Tag) : Stage → Line
  | .io => { l with near := l.near ++ [t] }
  | .compression => { l with far := l.far ++ [t] }

theorem lane_push (l : Line) {t : Tag} {s : Stage} (h : t.route = s) (s' : Stage) :
    (l.push t s).lane s' = l.lane s' ++ if s = s' then [t] else [] := by
  cases s with
  | io => cases s' <;> simp [Line.push, Line.lane, h]
  | compression => cases s' <;> simp [Line.push, Line.lane, Tag.op_of_route h]

theorem returning_push (l : Line) {t : Tag} {s : Stage} (h : t.route = s) :
    (l.push t s).returning = l.returning := by
  cases s with
  | io => rfl
  | compression => simp [Line.push, Line.returning, Tag.op_of_route h]

theorem Takes.lane {l l' : Line} {s : Stage} {t : Tag} {on : Bool} (h : Takes s t on l l')
    (s' : Stage) : (l'.lane s').Sublist (l.lane s') := by
  cases h with
  | @io n f t | @ioOn n f t =>
    have hnear := fun s' => (List.sublist_cons_self t n).filter (fun u : Tag => u.route = s')
    cases s' with
    | io => exact hnear .io
    | compression => exact (hnear .compression).append (List.Sublist.refl _)
  | @compression n f b t =>
    cases s' with
    | io => exact List.Sublist.refl _
    | compression => exact (List.Sublist.refl _).append ((List.sublist_cons_self t f).filter _)
  | compressionOn => exact List.Sublist.refl _

/-- What stands first before the I/O stage stands first in the lane that it came by. -/
theorem lane_cons (n f b : List Tag) (t : Tag) :
    ∃ rest, (⟨t :: n, f, b⟩ : Line).lane t.route = t :: rest := by
  cases hr : t.route with
  | io => exact ⟨n.filter (·.route = .io), by simp [Line.lane, hr]⟩
  | compression =>
    exact ⟨n.filter (·.route = .compression) ++ f.filter (·.op = .write), by simp [Line.lane, hr]⟩

theorem Takes.returning_io {l l' : Line} {t : Tag} {on : Bool} (h : Takes .io t on l l') :
    l'.returning = l.returning ++ if on then [t] else [] := by
  cases h <;> simp [Line.returning]

theorem Takes.returning_write {l l' : Line} {t : Tag} {on : Bool} (h : Takes .compression t on l l')
    (ht : t.op = .write) : l'.returning = l.returning := by
  cases h <;> simp [Line.returning, ht]

theorem Takes.returning_read {l l' : Line} {t : Tag} {on : Bool} (h : Takes .compression t on l l')
    (ht : t.op = .read) : l.returning = t :: l'.returning := by
  cases h with
  | compression => simp [Line.returning, ht]
  | compressionOn h => rw [ht] at h; cases h

/-- Work leaves a lane, and the rest stays as it stands. -/
theorem Step.lane {l l' : Line} (h : l.Step l') (s : Stage) : (l'.lane s).Sublist (l.lane s) := by
  cases h with
  | same => exact List.Sublist.refl _
  | @forth n f b t h =>
    cases s with
    | io => simp [Line.lane, h]
    | compression => simp [Line.lane, h, Tag.op_of_route h]
  | @forthRefused n f b t =>
    cases s with
    | io => exact List.Sublist.refl _
    | compression =>
      exact (List.Sublist.refl _).append ((List.sublist_cons_self t f).filter _)
  | back h => cases s <;> simp [Line.lane, h]
  | backRefused => exact List.Sublist.refl _
  | @clearNear n f b =>
    cases s with
    | io => exact List.nil_sublist _
    | compression => exact List.sublist_append_right _ _
  | @clearFar n f b =>
    cases s with
    | io => exact List.Sublist.refl _
    | compression => exact (List.Sublist.refl _).append (List.nil_sublist _)

theorem Step.returning {l l' : Line} (h : l.Step l') : l'.returning <:+ l.returning := by
  cases h with
  | same => exact List.suffix_refl _
  | forth h => simp [Line.returning, Tag.op_of_route h]
  | @forthRefused n f b t =>
    by_cases ht : t.op = .read
    · simp [Line.returning, ht, List.suffix_cons]
    · simp [Line.returning, ht]
  | back h => simp [Line.returning, h]
  | backRefused => exact List.nil_suffix
  | clearNear => exact List.suffix_refl _
  | clearFar => exact List.suffix_append _ _

end Line

namespace Dispatcher

variable {σ η κ : Type} {p : Setup σ η κ} {d d' d₀ : Dispatcher σ κ} {rs : List Submission}

def lineOf (tasks : PerStage Task) (queues : PerStage (Queue Work)) : Line where
  near := (tasks.io.inTurn ++ queues.io.works).map Work.tag
  far := (tasks.compression.works ++ queues.compression.works).map Work.tag
  back := tasks.io.outgoing.map Work.tag

def line (d : Dispatcher σ κ) : Line := lineOf d.tasks d.queues

theorem line_congr (ht : d'.tasks = d.tasks) (hq : d'.queues = d.queues) : d'.line = d.line := by
  unfold line
  rw [ht, hq]

/-! ### Routes -/

/-- Who waits, waits at the first queue of the route; what goes on from the I/O stage are reads, and
    what is written from the compression stage comes from its queue. -/
def routed : Placement where
  waiting s w := w.tag.route = s
  queued s _ w := s = .compression → w.op = .write → w.tag.route = .compression
  busy s w := s = .compression → w.op = .write → w.tag.route = .compression
  handing s w := (s = .io → w.op = .read) ∧ (s = .compression → w.tag.route = .compression)

theorem route_ofSubmission (id : WorkId) (heap : HeapId) (r : Submission) (path : PathField) :
    ({ Work.ofSubmission id heap r with path } : Work).tag.route = firstStage r := by
  cases r with
  | read => rfl
  | write path data compressed => cases compressed <;> rfl

theorem routed_stable (p : Setup σ η κ) : routed.Stable p where
  submit id r path := route_ofSubmission id p.ownHeap r path
  push s w h := fun hs _ => h.trans hs
  pop s c w h := h
  ready d d' s w w' hb hp hh := by
    have hsame := sameAs_of_processing hp
    show (s = .io → w'.op = .read) ∧ (s = .compression → w'.tag.route = .compression)
    refine ⟨?_, ?_⟩
    · rintro rfl
      have hh' : (w'.op == .read && w'.compressed) = true := hh
      exact beq_iff_eq.mp (Bool.and_eq_true _ _ ▸ hh').1
    · rintro rfl
      have hop : w'.op = .write := beq_iff_eq.mp hh
      rw [hsame.tag]
      exact hb rfl (hsame.op ▸ hop)
  hand s w h := by
    cases s with
    | io =>
      intro _ hw
      have hop := h.1 rfl
      rw [hw] at hop
      cases hop
    | compression =>
      intro hs
      cases hs

/-! ### Steps -/

theorem lineOf_setQueue {tasks : PerStage Task} {queues : PerStage (Queue Work)} {s : Stage}
    {q : Queue Work} (h : q.works = (queues.get s).works) :
    lineOf tasks (queues.set q s) = lineOf tasks queues := by
  cases s with
  | io => simp only [lineOf, PerStage.set, show q.works = queues.io.works from h]
  | compression => simp only [lineOf, PerStage.set, show q.works = queues.compression.works from h]

theorem inTurn_eq_nil {t : Task} (h : t.works = []) : t.inTurn = [] := by
  cases t <;> simp_all [Task.works, Task.inTurn]

theorem outgoing_eq_nil {t : Task} (h : t.works = []) : t.outgoing = [] := by
  cases t <;> simp_all [Task.works, Task.outgoing]

theorem lineOf_setTask {tasks : PerStage Task} {queues : PerStage (Queue Work)} {s : Stage}
    {t : Task} (h : (tasks.get s).works = []) (ht : t.works = []) :
    lineOf (tasks.set t s) queues = lineOf tasks queues := by
  cases s with
  | io =>
    have h : tasks.io.works = [] := h
    simp only [lineOf, PerStage.set, inTurn_eq_nil h, outgoing_eq_nil h, inTurn_eq_nil ht,
      outgoing_eq_nil ht]
  | compression =>
    have h : tasks.compression.works = [] := h
    simp only [lineOf, PerStage.set, h, ht]

theorem works_afterPill (d : Dispatcher σ κ) (s : Stage) : (d.afterPill s).works = [] := by
  unfold afterPill
  cases s with
  | io => dsimp only; split <;> rfl
  | compression => rfl

theorem line_pop {s : Stage} {w : Work} {q : Queue Work} (ht : d.tasks.get s = .idle)
    (hq : (d.queues.get s).pop? = .item (.work w) q) :
    ((d.setQueue s q).setTask s (.busy w)).line = d.line := by
  have hworks := Queue.works_pop_work hq
  cases s with
  | io =>
    have ht : d.tasks.io = .idle := ht
    have hworks : d.queues.io.works = w :: q.works := hworks
    simp [line, lineOf, setTask, setQueue, PerStage.set, ht, hworks, Task.inTurn, Task.outgoing]
  | compression =>
    have ht : d.tasks.compression = .idle := ht
    have hworks : d.queues.compression.works = w :: q.works := hworks
    simp [line, lineOf, setTask, setQueue, PerStage.set, ht, hworks, Task.works]

theorem line_hand (hr : routed.Holds d) {s : Stage} {w : Work} {q : Queue Work}
    (ht : d.tasks.get s = .handing w)
    (hq : (d.queues.get s.peer).forward? (.work w) = some q) :
    d.line.Step ((d.setQueue s.peer q).setTask s .idle).line := by
  obtain ⟨-, rfl⟩ := Queue.forward?_eq_some hq
  have hw := hr.task s
  rw [ht] at hw
  cases s with
  | io =>
    have ht : d.tasks.io = .handing w := ht
    have h : d.line.Step ⟨d.line.near, d.line.far ++ [w.tag], []⟩ := by
      have hline : d.line = ⟨d.line.near, d.line.far, [w.tag]⟩ := by
        simp [line, lineOf, ht, Task.outgoing]
      rw [hline]
      exact .back (hw.1 rfl)
    convert h using 1
    simp [line, lineOf, setTask, setQueue, PerStage.set, PerStage.get, Stage.peer, ht, Task.inTurn,
      Task.outgoing]
  | compression =>
    have ht : d.tasks.compression = .handing w := ht
    have h : d.line.Step ⟨d.line.near ++ [w.tag], d.queues.compression.works.map Work.tag,
        d.line.back⟩ := by
      have hline : d.line =
          ⟨d.line.near, w.tag :: d.queues.compression.works.map Work.tag, d.line.back⟩ := by
        simp [line, lineOf, ht, Task.works]
      rw [hline]
      exact .forth (hw.2 rfl)
    convert h using 1
    simp [line, lineOf, setTask, setQueue, PerStage.set, PerStage.get, Stage.peer, Task.works]

theorem works_of_gone {s : Stage} {c : Bool} (h : d.outline.posts.get s = .gone c) :
    (d.tasks.get s).works = [] := by
  rw [posts_outline] at h
  cases hd : d.tasks.get s <;> rw [hd] at h <;> first | rfl | cases h

theorem works_of_closing (hg : d.outline.Guided) {s : Stage} {e : Option JoinError}
    (hh : d.halt = .closing s e) (s' : Stage) : (d.tasks.get s').works = [] := by
  have hheard := hg.heard
  unfold Outline.Heard at hheard
  rw [show d.outline.halt = _ from hh] at hheard
  obtain ⟨c, c', hio, hcompression, -⟩ := hheard
  cases s' with
  | io => exact works_of_gone hio
  | compression => exact works_of_gone hcompression

theorem line_refused (hg : d.outline.Guided) {c : Nat} (hs : SoundQueues c d) {s : Stage} {w : Work}
    (ht : d.tasks.get s = .handing w) (hq : (d.queues.get s.peer).forward? (.work w) = none) :
    d.line.Step (d.setTask s .idle).line := by
  have hclosed := closed_of_forward? hq
  cases s with
  | io =>
    have ht : d.tasks.io = .handing w := ht
    -- the worker of a closed queue is gone
    have hgone := (hg.closed .compression).mp hclosed
    have hqueue : d.queues.compression.works = [] := by
      unfold Queue.works Queue.items
      rw [show d.queues.compression.entries = [] from (hs .compression).1.closed hclosed]
      rfl
    have htask : d.tasks.compression.works = [] := works_of_gone hgone.choose_spec
    have h : d.line.Step ⟨d.line.near, [], []⟩ := by
      have hline : d.line = ⟨d.line.near, [], [w.tag]⟩ := by
        simp [line, lineOf, ht, hqueue, htask, Task.outgoing]
      rw [hline]
      exact .backRefused
    convert h using 1
    simp [line, lineOf, setTask, PerStage.set, ht, hqueue, htask, Task.inTurn, Task.outgoing]
  | compression =>
    have ht : d.tasks.compression = .handing w := ht
    have h : d.line.Step ⟨d.line.near, d.queues.compression.works.map Work.tag, d.line.back⟩ := by
      have hline : d.line =
          ⟨d.line.near, w.tag :: d.queues.compression.works.map Work.tag, d.line.back⟩ := by
        simp [line, lineOf, ht, Task.works]
      rw [hline]
      exact .forthRefused
    convert h using 1
    simp [line, lineOf, setTask, PerStage.set, Task.works]

theorem line_cleared {s : Stage} (ht : (d.tasks.get s).works = [])
    (ht' : (d'.tasks.get s).works = []) (hpeer : d'.tasks.get s.peer = d.tasks.get s.peer)
    (hq : (d'.queues.get s).works = [])
    (hqpeer : (d'.queues.get s.peer).works = (d.queues.get s.peer).works) :
    d.line.Step d'.line := by
  cases s with
  | io =>
    have hline : d'.line = ⟨[], d.line.far, d.line.back⟩ := by
      have ht : d.tasks.io.works = [] := ht
      have ht' : d'.tasks.io.works = [] := ht'
      have hpeer : d'.tasks.compression = d.tasks.compression := hpeer
      have hq : d'.queues.io.works = [] := hq
      have hqpeer : d'.queues.compression.works = d.queues.compression.works := hqpeer
      simp [line, lineOf, inTurn_eq_nil ht', outgoing_eq_nil ht, outgoing_eq_nil ht', hq, hpeer,
        hqpeer]
    rw [hline]
    exact .clearNear
  | compression =>
    have hline : d'.line = ⟨d.line.near, [], d.line.back⟩ := by
      have ht' : d'.tasks.compression.works = [] := ht'
      have hpeer : d'.tasks.io = d.tasks.io := hpeer
      have hq : d'.queues.compression.works = [] := hq
      have hqpeer : d'.queues.io.works = d.queues.io.works := hqpeer
      simp [line, lineOf, ht', hq, hpeer, hqpeer]
    rw [hline]
    exact .clearFar

theorem works_sendPill (d : Dispatcher σ κ) (s s' : Stage) :
    ((d.sendPill s).queues.get s').works = (d.queues.get s').works := by
  unfold sendPill
  split
  · next q hq =>
    obtain ⟨-, rfl⟩ := Queue.forward?_eq_some hq
    cases s <;> cases s' <;> first | exact Queue.works_append_pill _ _ | rfl
  · rfl

/-- Every step that neither is a turn nor accepts a push is one of the lines. -/
theorem line_of_transition {a : Action} (ht : Transition p d a d') (ha : ∀ s, a ≠ .process s)
    (hpush : ∀ i s w q, d.waiting[i]? = some (s, w) → a = .push i →
      (d.queues.get s).offer (.work w) ≠ .accepted q)
    (hr : routed.Holds d) (hg : d.outline.Guided) {c : Nat} (hs : SoundQueues c d) :
    d.line.Step d'.line := by
  have same : d'.line = d.line → d.line.Step d'.line := fun h => h ▸ .same _
  -- the pills of a queue, and a worker without work that goes on without work
  have pills : ∀ {s : Stage} {q : Queue Work} {t : Task}, (d.tasks.get s).works = [] →
      t.works = [] → ∀ {r : Stage}, q.works = (d.queues.get r).works →
      lineOf (d.tasks.set t s) (d.queues.set q r) = d.line := fun h h' _ hq =>
    (lineOf_setQueue hq).trans (lineOf_setTask h h')
  cases ht with
  | pushed hw hq => exact absurd hq (hpush _ _ _ _ hw rfl)
  | turnedAway => exact same (line_congr (tasks_fail _ _ _) (queues_fail _ _ _))
  | popped ht hq => exact same (line_pop ht hq)
  | poppedPill ht hq =>
    exact same (pills (by rw [ht]; rfl) (works_afterPill d _) (Queue.works_pop_pill hq))
  | readied | ended | crashed => exact absurd rfl (ha _)
  | handed ht hq => exact line_hand hr ht hq
  | @refused s w ht hq =>
    have hline : ((d.abandon w).setTask s .idle).line = (d.setTask s .idle).line :=
      line_congr (congrArg (fun ts : PerStage Task => ts.set .idle s) (tasks_settle d w _))
        (queues_settle d w _)
    rw [hline]
    exact line_refused hg hs ht hq
  | relayedOn ht hq =>
    obtain ⟨-, rfl⟩ := Queue.forward?_eq_some hq
    exact same (pills (s := .io) (r := .compression) (by rw [show d.tasks.get .io = _ from ht]; rfl)
      rfl (Queue.works_append_pill _ _))
  | relayedBack ht hq =>
    obtain ⟨-, rfl⟩ := Queue.forward?_eq_some hq
    exact same (pills (s := .compression) (r := .io)
      (by rw [show d.tasks.get .compression = _ from ht]; rfl) rfl (Queue.works_append_pill _ _))
  | relayRefused ht => exact same (lineOf_setTask (by rw [ht]; rfl) rfl)
  | @left s ht =>
    refine line_cleared (s := s) (by rw [ht]; rfl) ?_ ?_ ?_ ?_
    · rw [get_setTask, if_pos rfl]
      rfl
    · rw [get_setTask, if_neg (by cases s <;> simp [Stage.peer]), tasks_abandonAll]
      rfl
    · rw [show Dispatcher.queues (Dispatcher.setTask _ _ _) = _ from queues_abandonAll _ _]
      cases s <;> rfl
    · rw [show Dispatcher.queues (Dispatcher.setTask _ _ _) = _ from queues_abandonAll _ _]
      cases s <;> rfl
  | @leftCrashed s ht =>
    have hqueues := queues_abandonAll ((d.setQueue s (d.queues.get s).close.2).sendPill s.peer)
      (d.queues.get s).items
    refine line_cleared (s := s) (by rw [ht]; rfl) ?_ ?_ ?_ ?_
    · rw [get_setTask, if_pos rfl]
      rfl
    · rw [get_setTask, if_neg (by cases s <;> simp [Stage.peer]), tasks_abandonAll, tasks_sendPill]
      rfl
    · rw [show Dispatcher.queues (Dispatcher.setTask _ _ _) = _ from hqueues, works_sendPill]
      cases s <;> rfl
    · rw [show Dispatcher.queues (Dispatcher.setTask _ _ _) = _ from hqueues, works_sendPill]
      cases s <;> rfl
  | pillPushed hh hq =>
    obtain ⟨-, -, rfl⟩ := Queue.offer_eq_accepted hq
    exact same (lineOf_setQueue (s := .io) (Queue.works_append_pill _ _))
  | closedIo hh =>
    have hgone := works_of_closing hg hh .io
    refine line_cleared (s := .io) hgone ?_ ?_ ?_ ?_
    · rw [show Dispatcher.tasks _ = _ from tasks_failAll _ _]
      exact hgone
    · rw [show Dispatcher.tasks _ = _ from tasks_failAll _ _]
      rfl
    · rw [show Dispatcher.queues _ = _ from queues_failAll _ _]
      rfl
    · rw [show Dispatcher.queues _ = _ from queues_failAll _ _]
      rfl
  | closedCompression hh =>
    have hgone := works_of_closing hg hh .compression
    refine line_cleared (s := .compression) hgone ?_ ?_ ?_ ?_
    · rw [show Dispatcher.tasks (Dispatcher.finish _ _) = _ from tasks_failAll _ _]
      exact hgone
    · rw [show Dispatcher.tasks (Dispatcher.finish _ _) = _ from tasks_failAll _ _]
      rfl
    · rw [show Dispatcher.queues (Dispatcher.finish _ _) = _ from queues_failAll _ _]
      rfl
    · rw [show Dispatcher.queues (Dispatcher.finish _ _) = _ from queues_failAll _ _]
      rfl
  | _ => exact same rfl

theorem line_submit (r : Submission) : (d.submit p r).line = d.line := by
  rcases submit_eq p d r with ⟨e, -, he⟩ | ⟨path, -, he⟩
  · rw [he]
    exact line_congr (tasks_fail _ _ _) (queues_fail _ _ _)
  · rw [he]
    rfl

theorem line_accept (hr : routed.Holds d) {i : Nat} {s : Stage} {w : Work} {q : Queue Work}
    (hw : d.waiting[i]? = some (s, w)) (hq : (d.queues.get s).offer (.work w) = .accepted q) :
    w.tag.route = s ∧
      ({ d with waiting := d.waiting.eraseIdx i }.setQueue s q).line = d.line.push w.tag s := by
  refine ⟨hr.waiting _ (List.mem_of_getElem? hw), ?_⟩
  obtain ⟨-, -, rfl⟩ := Queue.offer_eq_accepted hq
  cases s <;> simp [line, lineOf, setQueue, PerStage.set, PerStage.get, Line.push]

theorem line_of_io {w : Work} (hw : d.tasks.get .io = .busy w) :
    d.line = ⟨w.tag :: d.queues.io.works.map Work.tag, d.line.far, []⟩ := by
  have hw : d.tasks.io = .busy w := hw
  simp [line, lineOf, hw, Task.inTurn, Task.outgoing]

theorem line_of_compression {w : Work} (hw : d.tasks.get .compression = .busy w) :
    d.line = ⟨d.line.near, w.tag :: d.queues.compression.works.map Work.tag, d.line.back⟩ := by
  have hw : d.tasks.compression = .busy w := hw
  simp [line, lineOf, hw, Task.works]

theorem line_took {s : Stage} {w : Work} (hw : d.tasks.get s = .busy w) {t : Task}
    (ht : t.works = []) (hd : d'.tasks = d.tasks.set t s) (hq : d'.queues = d.queues) :
    d.line.Takes s w.tag false d'.line := by
  cases s with
  | io =>
    rw [line_of_io hw]
    convert Line.Takes.io using 1
    simp [line, lineOf, hd, hq, PerStage.set, inTurn_eq_nil ht, outgoing_eq_nil ht]
  | compression =>
    have hw : d.tasks.compression = .busy w := hw
    rw [line_of_compression hw]
    convert Line.Takes.compression using 1
    simp [line, lineOf, hd, hq, PerStage.set, ht]

theorem line_readied {s : Stage} {w w' : Work} (hw : d.tasks.get s = .busy w) (hsame : w'.SameAs w)
    (hh : handsOn s w' = true) (ht : d'.tasks = d.tasks) (hq : d'.queues = d.queues) :
    d.line.Takes s w.tag true (d'.setTask s (.handing w')).line := by
  have htag := hsame.tag
  cases s with
  | io =>
    have hop : w.tag.op = .read := by
      have hop : (w'.op == .read && w'.compressed) = true := hh
      rw [← htag]
      exact beq_iff_eq.mp (Bool.and_eq_true _ _ ▸ hop).1
    rw [line_of_io hw]
    convert Line.Takes.ioOn hop using 1
    simp [line, lineOf, setTask, ht, hq, htag, PerStage.set, Task.inTurn, Task.outgoing]
  | compression =>
    have hop : w.tag.op = .write := by
      rw [← htag]
      exact beq_iff_eq.mp hh
    rw [line_of_compression hw]
    convert Line.Takes.compressionOn hop using 1
    simp [line, lineOf, setTask, ht, hq, htag, PerStage.set, Task.works]

/-- What the turn of a worker does with the lines. -/
theorem line_of_turn {s : Stage} {w : Work} (hw : d.tasks.get s = .busy w)
    (hs : d.step p (.process s) = some d') :
    d.line.Takes s w.tag ((⟨d, s, w⟩ : Turn σ κ).readied p) d'.line := by
  obtain ⟨d₁, w', r, hp, rfl⟩ := turn_cases hw hs
  have hu := untouched_of_processing hp
  have took : ∀ (e : Except WorkError Unit) {t : Task}, t.works = [] →
      d.line.Takes s w.tag false ((d₁.settle w' e).setTask s t).line := fun e t ht =>
    line_took hw ht
      (congrArg (fun ts : PerStage Task => ts.set t s) ((tasks_settle _ _ _).trans hu.tasks))
      ((queues_settle _ _ _).trans hu.queues)
  have hready := Turn.readied_iff (p := p) (t := ⟨d, s, w⟩)
  rw [Turn.result_eq (t := ⟨d, s, w⟩) hp, Turn.after_eq (t := ⟨d, s, w⟩) hp] at hready
  rcases d₁.conclude_cases s w' r with ⟨hr, hh, he⟩ | ⟨hno, e, he⟩
  · rw [he, hready.mpr ⟨hr, hh⟩]
    exact line_readied hw (sameAs_of_processing hp) hh hu.tasks hu.queues
  · have hnot : (⟨d, s, w⟩ : Turn σ κ).readied p = false := by
      refine eq_false_of_ne_true fun hyes => ?_
      obtain ⟨hr, hh⟩ := hready.mp hyes
      rw [hno hr] at hh
      cases hh
    rw [he, hnot]
    exact took e (by split <;> rfl)

/-! ### Work that is held -/

/-- Where work stands that is held: with who waits, before the I/O stage, as a write in the compression
    stage, or as a read on its way back. -/
inductive Standing (P : Stage → Work → Prop) (d : Dispatcher σ κ) (w : Work) : Prop
  | waiting {s : Stage} (hw : (s, w) ∈ d.waiting) (hs : w.tag.route = s) (hP : P s w)
  | near (hw : w.tag ∈ d.line.near) (hP : P .io w)
  | far {s : Stage} (hw : w.tag ∈ d.line.far) (hop : w.op = .write)
      (hs : w.tag.route = .compression) (hP : P s w)
  | back (hw : w.tag ∈ d.line.returning) (hop : w.op = .read) (hP : P .compression w)

theorem standing_of_far {P : Stage → Work → Prop} {w : Work} (hw : w.tag ∈ d.line.far)
    (hs : w.op = .write → w.tag.route = .compression) (hP : P .compression w) : Standing P d w := by
  cases hop : w.op with
  | read =>
    have hback : w.tag ∈ d.line.far.filter (·.op = .read) :=
      List.mem_filter.mpr ⟨hw, by simp [Work.tag, hop]⟩
    exact .back (List.mem_append_left _ hback) hop hP
  | write => exact .far hw hop (hs hop) hP

theorem standing_of_held {P : Stage → Work → Prop} (hr : routed.Holds d)
    (hP : (Placement.ofStage P).Holds d) {h : Holder} {w : Work} (hw : w ∈ d.worksOf h) :
    Standing P d w := by
  rcases h with _ | (_ | _) | (_ | _)
  · obtain ⟨⟨s, w'⟩, hx, rfl⟩ := List.mem_map.mp hw
    exact .waiting hx (hr.waiting _ hx) (hP.waiting _ hx)
  · have hw : w ∈ d.queues.io.works := hw
    obtain ⟨e, he, hi⟩ := List.mem_map.mp (Item.mem_works.mp hw)
    exact .near (List.mem_map_of_mem (List.mem_append_right _ hw)) (hP.queued .io e he w hi)
  · have hw : w ∈ d.queues.compression.works := hw
    obtain ⟨e, he, hi⟩ := List.mem_map.mp (Item.mem_works.mp hw)
    exact standing_of_far (List.mem_map_of_mem (List.mem_append_right _ hw))
      (hr.queued .compression e he w hi rfl) (hP.queued .compression e he w hi)
  · have hrt := hr.task .io
    have hPt := hP.task .io
    have hw : w ∈ (d.tasks.get .io).works := hw
    cases ht : d.tasks.get .io with
    | busy v =>
      rw [ht] at hw hPt
      obtain rfl := List.mem_singleton.mp hw
      exact .near (by rw [line_of_io ht]; exact List.mem_cons_self) hPt
    | handing v =>
      rw [ht] at hw hrt hPt
      obtain rfl := List.mem_singleton.mp hw
      have hback : w.tag ∈ d.line.back := by
        have ht : d.tasks.io = .handing w := ht
        simp [line, lineOf, ht, Task.outgoing]
      exact .back (List.mem_append_right _ hback) (hrt.1 rfl) hPt
    | _ => rw [ht] at hw; cases hw
  · have hrt := hr.task .compression
    have hPt := hP.task .compression
    have hfar : w.tag ∈ d.line.far := List.mem_map_of_mem (List.mem_append_left _ hw)
    have hw : w ∈ (d.tasks.get .compression).works := hw
    cases ht : d.tasks.get .compression with
    | busy v =>
      rw [ht] at hw hrt hPt
      obtain rfl := List.mem_singleton.mp hw
      exact standing_of_far hfar (hrt rfl) hPt
    | handing v =>
      rw [ht] at hw hrt hPt
      obtain rfl := List.mem_singleton.mp hw
      exact .far hfar (Tag.op_of_route (hrt.2 rfl)) (hrt.2 rfl) hPt
    | _ => rw [ht] at hw; cases hw

theorem Standing.holds {P : Stage → Work → Prop} {w : Work} (h : Standing P d w) : ∃ s, P s w := by
  cases h with
  | waiting _ _ hP | near _ hP | far _ _ _ hP | back _ _ hP => exact ⟨_, hP⟩

end Dispatcher

end FilePipeline
