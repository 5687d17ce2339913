import FilePipeline.Notice
import FilePipeline.Queue
import FilePipeline.Stage
import FilePipeline.Ticket
import FilePipeline.Worker

/-! # The dispatcher

A dispatcher is two queues with a worker each, the counters, and the tickets of all submissions. Here
is its state as it is between two steps, and `settle`, by which every piece of work ends. A piece of
work that is not settled is in one place: with a submitter who waits for a slot, in one of the
queues, or with one of the workers. -/

namespace FilePipeline

/-- What a worker is about to do. -/
inductive Task where
  /-- To pop the next item. -/
  | idle
  /-- To process a piece of work. -/
  | busy (w : Work)
  /-- To hand a piece of work to the other stage. -/
  | handing (w : Work)
  /-- To hand the pill to the other stage. -/
  | relaying
  /-- To leave, closing its queue; it may have crashed. -/
  | leaving (crashed : Bool)
  /-- Nothing any more. -/
  | gone (crashed : Bool)
  deriving Inhabited

/-- How far a dispatcher is with stopping. From the first crashed worker on, the error is carried
    along. -/
inductive Halt where
  | running
  | pushing
  /-- To wait for a worker to be gone. -/
  | joining (s : Stage) (e : Option JoinError)
  | closing (s : Stage) (e : Option JoinError)
  | stopped (e : Option JoinError)
  deriving DecidableEq, Repr, Inhabited

/-- A dispatcher over a backend with states of type `σ` and a codec with states of type `κ`. -/
structure Dispatcher (σ κ : Type) where
  heaps : Heaps
  backend : σ
  codec : κ
  workers : PerStage Worker
  queues : PerStage (Queue Work)
  tasks : PerStage Task := ⟨.idle, .idle⟩
  /-- Whether the I/O worker has passed the pill on and serves only what still comes back. -/
  draining : Bool := false
  /-- Submitters waiting for a slot of a queue. -/
  waiting : List (Stage × Work) := []
  tickets : List Ticket := []
  stats : Stats := {}
  halt : Halt := .running
  notices : List Notice := []

namespace Dispatcher

variable {σ κ : Type}

def setQueue (d : Dispatcher σ κ) (s : Stage) (q : Queue Work) : Dispatcher σ κ :=
  { d with queues := d.queues.set q s }

/-- The dispatcher after a worker's task was exchanged. -/
def setTask (d : Dispatcher σ κ) (s : Stage) (t : Task) : Dispatcher σ κ :=
  { d with tasks := d.tasks.set t s }

/-- The dispatcher after its submitting side logged something. -/
def notice (d : Dispatcher σ κ) (n : Notice) : Dispatcher σ κ :=
  { d with notices := d.notices ++ [n] }

/-- The dispatcher after a buffer was let go. -/
def release (d : Dispatcher σ κ) (b : WorkBuffer) : Dispatcher σ κ :=
  { d with heaps := (b.drop d.heaps).1 }

/-- Ends a piece of work: counts it, publishes its outcome and raises its event. Work that ended
    before is only dropped. -/
def settle (d : Dispatcher σ κ) (w : Work) (result : Except WorkError Unit) : Dispatcher σ κ :=
  match d.tickets[w.id]? with
  | none => d.release w.buffer
  | some t =>
    if t.isDone then d.release w.buffer
    else
      { d with
        stats := d.stats.recordCompleted w.op result w.size
        tickets := d.tickets.set w.id (t.publish (w.outcome result)) }

/-- Drops a piece of work that nobody will finish. -/
def abandon (d : Dispatcher σ κ) (w : Work) : Dispatcher σ κ := d.settle w (.error .abandoned)

/-- Drops items taken out of a queue. -/
def abandonAll (d : Dispatcher σ κ) (items : List (Item Work)) : Dispatcher σ κ :=
  items.foldl (fun d i =>
    match i with
    | .work w => d.abandon w
    | .pill => d) d

/-- Ends a piece of work on the submitting side, where failures are logged. -/
def fail (d : Dispatcher σ κ) (w : Work) (e : WorkError) : Dispatcher σ κ :=
  (d.notice (.workFailed e)).settle w (.error e)

/-- Drops items on the submitting side. -/
def failAll (d : Dispatcher σ κ) (items : List (Item Work)) : Dispatcher σ κ :=
  items.foldl (fun d i =>
    match i with
    | .work w => d.fail w .abandoned
    | .pill => d) d

def isStopped (d : Dispatcher σ κ) : Bool :=
  match d.halt with
  | .stopped _ => true
  | _ => false

/-- The structured form of a running dispatcher. -/
def inspect {η : Type} (p : Setup σ η κ) (d : Dispatcher σ κ) : String :=
  Text.record "Dispatcher"
    [("config", p.config.inspect), ("heap", Text.quoted (d.heaps.name p.ownHeap)),
      ("io_queue", d.queues.io.inspect), ("compression_queue", d.queues.compression.inspect),
      ("workers", s!"[{d.workers.io.inspect}, {d.workers.compression.inspect}]")]

end Dispatcher

end FilePipeline
