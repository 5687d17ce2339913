import FilePipeline.Dispatcher.Client
import FilePipeline.Dispatcher.Start
import FilePipeline.Heap.Directory

/-! # Sessions

A client at work with a dispatcher: it keeps the handles of its submissions and the buffers it took
over under names. After each call the dispatcher runs until nothing is left to do. Some backends have
a gate in front of the opening of files. While it is shut, the I/O worker stops at the next file that
it is to open, and everything else goes on until it has to wait for that worker. -/

namespace FilePipeline

/-- A client with its dispatcher. -/
structure Session (σ η κ : Type) where
  setup : Setup σ η κ
  dispatcher : Dispatcher σ κ
  heapNames : Named HeapId := []
  handles : Named WorkId := []
  taken : Named Buffer := []
  /-- Whether the backend has a gate. -/
  gated : Bool := true
  /-- Whether the gate is to be shut. -/
  shut : Bool := false
  /-- What was submitted while the gate was shut and not dropped since, by name of the handle. -/
  heldBack : List String := []

/-- What submitting came to. -/
inductive Admission where
  | stopped
  /-- The submission would wait for as long as the gate is shut, and was not made. -/
  | wouldBlock
  /-- The work has ended. -/
  | ended (id : WorkId)
  /-- The gate is shut; the work may have ended or not. -/
  | held (id : WorkId)

/-- What dropping a handle came to. -/
inductive Dropping where
  | unknown
  /-- The drop would wait for as long as the gate is shut, and was not made. -/
  | wouldBlock
  /-- The handle is gone; this is the ticket afterwards. -/
  | dropped (t : Ticket)

namespace Session

variable {σ η κ : Type}

/-- The heaps by name. -/
def directory (s : Session σ η κ) : HeapDirectory := ⟨s.dispatcher.heaps, s.heapNames⟩

def start (p : Setup σ η κ) (gated : Bool) (platform : Platform) (heaps : HeapDirectory)
    (backend : σ) (codec : κ) : Attempt StartError (Session σ η κ) :=
  (Dispatcher.start p platform heaps.heaps backend codec).answer.map fun d =>
    { setup := p, dispatcher := d, heapNames := heaps.names, gated }

/-! ### Running -/

/-- Whether an action would open a file. -/
def opensFile (p : Setup σ η κ) (d : Dispatcher σ κ) : Action → Bool
  | .process .io =>
    match d.tasks.io with
    | .busy w => (p.backend.translate d.backend w.path.text).isOk
    | _ => false
  | _ => false

/-- Lets the dispatcher run for as long as it can, which a shut gate cuts short. -/
def settle (s : Session σ η κ) : Session σ η κ :=
  { s with
    dispatcher := s.dispatcher.runWhile s.setup fun d a =>
      !(s.gated && s.shut && opensFile s.setup d a) }

/-- The session after the dispatcher was changed from outside. -/
def change (s : Session σ η κ) (f : Dispatcher σ κ → Dispatcher σ κ) : Session σ η κ :=
  { s with dispatcher := f s.dispatcher }

def shutGate (s : Session σ η κ) : Session σ η κ := { s with shut := true }

def openGate (s : Session σ η κ) : Session σ η κ := { s with shut := false }.settle

/-! ### Handles -/

/-- The ticket behind a handle. -/
def ticket? (s : Session σ η κ) (h : String) : Option Ticket :=
  (Named.find? s.handles h).bind fun id => s.dispatcher.tickets[id]?

/-- The ticket behind a handle whose work has ended. -/
def ended? (s : Session σ η κ) (h : String) : Option Ticket :=
  (Named.find? s.handles h).bind s.dispatcher.done?

def dropHandle (s : Session σ η κ) (h : String) : Session σ η κ :=
  match Named.find? s.handles h with
  | some id => { s.change (·.dropHandle id) with handles := Named.remove s.handles h }
  | none => s

/-- Puts a submission under a name; the handle there before is dropped. -/
def keep (s : Session σ η κ) (h : String) (id : WorkId) : Session σ η κ :=
  let s := s.dropHandle h
  { s with handles := Named.put s.handles h id }

/-! ### Calls -/

/-- Whether submitting this would wait: it goes to the I/O queue, all of whose slots are taken. -/
def wouldWait (s : Session σ η κ) (r : Submission) : Bool :=
  match Dispatcher.firstStage r, PathField.ofString? r.path with
  | .io, .ok _ =>
    match s.dispatcher.queues.io.offer .pill with
    | .full => true
    | _ => false
  | _, _ => false

/-- Submits work under a name and, unless the gate is shut, waits for it. -/
def submit (s : Session σ η κ) (h : String) (r : Submission) : Admission × Session σ η κ :=
  if s.dispatcher.isStopped then (.stopped, s)
  else if s.shut && s.wouldWait r then (.wouldBlock, s)
  else
    let id := s.dispatcher.nextId
    let after := ((s.change fun d => d.submit s.setup r).settle).keep h id
    if s.shut then (.held id, { after with heldBack := after.heldBack ++ [h] })
    else (.ended id, after)

/-- Looks at the outcome of a handle; none while its work has not ended. -/
def look (s : Session σ η κ) (h : String) : Option Ticket × Session σ η κ :=
  match Named.find? s.handles h with
  | some id => (s.dispatcher.done? id, s.change (·.look id))
  | none => (none, s)

/-- Polls for the end of a handle's work. -/
def poll (s : Session σ η κ) (h : String) : Option Poll × Session σ η κ :=
  match Named.find? s.handles h with
  | some id =>
    let r := s.dispatcher.poll id 0
    (r.1, { s with dispatcher := r.2 })
  | none => (none, s)

/-- Drops a buffer that was taken over; answers whether there was one. -/
def dropTaken (s : Session σ η κ) (h : String) : Bool × Session σ η κ :=
  match Named.find? s.taken h with
  | none => (false, s)
  | some b => (true, { s.change (·.release (.owned b)) with taken := Named.remove s.taken h })

/-- Takes over the buffer of a handle. It is kept under the handle's name, in place of the one there
    before. -/
def take (s : Session σ η κ) (h : String) : Option Buffer × Session σ η κ :=
  match Named.find? s.handles h with
  | none => (none, s)
  | some id =>
    let r := s.dispatcher.take id
    let s := { s with dispatcher := r.2 }
    match r.1 with
    | none => (none, s)
    | some b =>
      let s := (s.dropTaken h).2
      (some b, { s with taken := Named.put s.taken h b })

/-- Drops a handle, unless its work has not ended; what was submitted under its name is held back no
    longer. -/
def drop (s : Session σ η κ) (h : String) : Dropping × Session σ η κ :=
  match Named.find? s.handles h with
  | none => (.unknown, s)
  | some id =>
    match s.dispatcher.done? id with
    | none => (.wouldBlock, s)
    | some t =>
      (.dropped t.drop.2, { s.dropHandle h with heldBack := s.heldBack.filter fun n => !(n == h) })

/-- Opens the gate and looks at everything that was submitted while it was shut. -/
def unblock (s : Session σ η κ) : List (String × Option Ticket) × Session σ η κ :=
  let s := s.openGate
  (s.heldBack.map fun h => (h, s.ended? h),
    { s.heldBack.foldl (fun s h => (s.look h).2) s with heldBack := [] })

/-- Waits for the end of a handle's work, which opens the gate. -/
def await (s : Session σ η κ) (h : String) : Option Poll × Session σ η κ :=
  match s.ticket? h with
  | none => (none, s)
  | some _ => s.openGate.poll h

/-- The dispatcher, unless it has stopped. -/
def running? (s : Session σ η κ) : Option (Dispatcher σ κ) :=
  if s.dispatcher.isStopped then none else some s.dispatcher

/-- Takes what was logged since this was last done. -/
def takeNotices (s : Session σ η κ) : List Notice × Session σ η κ :=
  (s.dispatcher.notices, s.change fun d => { d with notices := [] })

/-- Lets the dispatcher stop, with the gate open. -/
def stop (s : Session σ η κ) : Session σ η κ := ((s.openGate).change (·.beginHalt)).settle

/-- Stops the dispatcher; answers with the failure, if there was one, and the log. None if it has
    stopped before. -/
def shutdown (s : Session σ η κ) : Option (Option JoinError × List Notice) × Session σ η κ :=
  if s.dispatcher.isStopped then (none, s)
  else
    let s := s.stop
    let r := s.takeNotices
    (some (s.dispatcher.stopError?, r.1), r.2)

/-- Drops the dispatcher; answers whether it was running, and with the log. -/
def dropDispatcher (s : Session σ η κ) : Bool × List Notice × Session σ η κ :=
  let running := !s.dispatcher.isStopped
  let s := if running then s.stop.change (·.noteDropped) else s
  (running, s.takeNotices)

/-- Drops all handles and then the dispatcher. -/
def close (s : Session σ η κ) : Session σ η κ :=
  let s := s.openGate
  (s.handles.foldl (fun s p => s.dropHandle p.1) s).dropDispatcher.2.2

/-- Drops the buffers that were taken over. -/
def dropAllTaken (s : Session σ η κ) : Session σ η κ :=
  s.taken.foldl (fun s p => (s.dropTaken p.1).2) s

end Session

end FilePipeline
