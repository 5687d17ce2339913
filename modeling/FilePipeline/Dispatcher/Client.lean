import FilePipeline.Dispatcher

/-! # What clients do with a dispatcher

A client submits work, looks at the tickets it got, takes over or drops the buffers they hold, and in
the end stops the dispatcher. A submission counts and leaves its ticket at once; if the path fits, the
work then waits to be pushed to the first queue of its route, and otherwise it has failed already. -/

namespace FilePipeline.Dispatcher

variable {σ η κ : Type}

/-! ### Submitting -/

/-- The first stage of the work asked for. -/
def firstStage : Submission → Stage
  | .read .. => .io
  | .write _ _ compressed => if compressed then .compression else .io

/-- The number of the next submission. -/
def nextId (d : Dispatcher σ κ) : WorkId := d.tickets.length

def submit (p : Setup σ η κ) (d : Dispatcher σ κ) (r : Submission) : Dispatcher σ κ :=
  let w := Work.ofSubmission d.nextId p.ownHeap r
  let ticket : Ticket := { op := r.op }
  let d := { d with stats := d.stats.recordSubmitted r.op, tickets := d.tickets ++ [ticket] }
  match PathField.ofString? r.path with
  | .error e => d.fail w (.path e)
  | .ok path => { d with waiting := d.waiting ++ [(firstStage r, { w with path })] }

/-! ### Stopping -/

/-- Begins to stop, once no submitter waits. -/
def beginHalt (d : Dispatcher σ κ) : Dispatcher σ κ :=
  match d.halt with
  | .running => if d.waiting.isEmpty then { d with halt := .pushing } else d
  | _ => d

/-- Why stopping failed, if it did. -/
def stopError? (d : Dispatcher σ κ) : Option JoinError :=
  match d.halt with
  | .stopped e => e
  | _ => none

/-- The text of a failure to stop. -/
def stopMessage (e : JoinError) : String := s!"Dispatcher worker failed: {e.message}"

/-- A dispatcher that stopped because it was dropped only logs a failure. -/
def noteDropped (d : Dispatcher σ κ) : Dispatcher σ κ :=
  match d.stopError? with
  | some e => d.notice (.shutdownFailed (stopMessage e))
  | none => d

/-! ### Tickets -/

def setTicket (d : Dispatcher σ κ) (id : WorkId) (t : Ticket) : Dispatcher σ κ :=
  { d with tickets := d.tickets.set id t }

/-- The ticket of a submission whose work has ended. -/
def done? (d : Dispatcher σ κ) (id : WorkId) : Option Ticket := d.tickets[id]?.filter Ticket.isDone

/-- Looks at the outcome of a submission. -/
def look (d : Dispatcher σ κ) (id : WorkId) : Dispatcher σ κ :=
  match d.done? id with
  | some t => d.setTicket id t.look.2
  | none => d

/-- Polls for the end of a submission. -/
def poll (d : Dispatcher σ κ) (id : WorkId) (waker : Nat) : Option Poll × Dispatcher σ κ :=
  match d.tickets[id]? with
  | some t =>
    let r := t.done.poll waker
    (some r.1, d.setTicket id { t with done := r.2 })
  | none => (none, d)

/-- Takes over the buffer of a read. -/
def take (d : Dispatcher σ κ) (id : WorkId) : Option Buffer × Dispatcher σ κ :=
  match d.done? id with
  | some t => (t.take.1, d.setTicket id t.take.2)
  | none => (none, d)

/-- Drops the handle of a submission, and with it the buffer that it still refers to. -/
def dropHandle (d : Dispatcher σ κ) (id : WorkId) : Dispatcher σ κ :=
  match d.done? id with
  | some t => (d.release t.drop.1).setTicket id t.drop.2
  | none => d

end FilePipeline.Dispatcher
