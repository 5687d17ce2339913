import FilePipeline.Event
import FilePipeline.Work

/-! # Tickets

A submission leaves a ticket: what the workers and the submitter share. The worker that ends the work
puts the outcome into the ticket's slot and then raises the event. The submitter's handle takes the
outcome out of the slot at the first look and answers from its own copy from then on; a look waits
for the event, so every function on a looked-at outcome here is for tickets whose event is raised. -/

namespace FilePipeline

/-- A ticket with the submitter's handle. -/
structure Ticket where
  op : Op
  done : Event Nat := {}
  /-- The outcome, once published and until looked at. -/
  slot : Option Outcome := none
  /-- The handle's copy of the outcome. -/
  seen : Option Outcome := none
  dropped : Bool := false
  deriving Inhabited

namespace Ticket

/-- Publishes an outcome, and only then raises the event. -/
def publish (t : Ticket) (o : Outcome) : Ticket :=
  { t with slot := some o, done := t.done.raise.2.2 }

def isDone (t : Ticket) : Bool := t.done.raised

/-- Looks at the outcome: the first look takes it out of the slot. -/
def look (t : Ticket) : Outcome × Ticket :=
  match t.seen with
  | some o => (o, t)
  | none =>
    let o := t.slot.getD Outcome.abandoned
    (o, { t with seen := some o, slot := none })

/-! ### What the handle answers -/

def result (t : Ticket) : Except WorkError Unit := t.look.1.result

def statusCode (t : Ticket) : Int := FilePipeline.statusCode t.result

def size (t : Ticket) : Nat := t.look.1.size

/-- The bytes of work that succeeded: the contents of the file, or what was handed to the platform. -/
def buffer (t : Ticket) : Option (List UInt8) :=
  match t.look.1.result with
  | .ok () => t.look.1.buffer.bytes?
  | .error _ => none

/-- The bytes of a read and the one after them, if there is room for one. -/
def terminated (t : Ticket) : Option (List UInt8) :=
  match t.look.1.buffer, t.op with
  | .owned b, .read => b.terminated?
  | _, _ => none

/-- Hands the buffer of a read over. -/
def take (t : Ticket) : Option Buffer × Ticket :=
  match t.op with
  | .write => (none, t)
  | .read =>
    let l := t.look
    match l.1.buffer with
    | .owned b => (some b, { l.2 with seen := some { l.1 with buffer := .none } })
    | _ => (none, l.2)

/-- Drops the handle: the buffer of the outcome is left over. -/
def drop (t : Ticket) : WorkBuffer × Ticket :=
  let l := t.look
  (l.1.buffer, { l.2 with seen := some { l.1 with buffer := .none }, dropped := true })

/-- The buffer the ticket refers to, in the slot or in the handle's copy. -/
def holds (t : Ticket) : WorkBuffer :=
  match t.seen with
  | some o => o.buffer
  | none => (t.slot.map Outcome.buffer).getD .none

end Ticket

end FilePipeline
