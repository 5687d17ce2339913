import FilePipeline.Dispatcher
import FilePipeline.Stage.Compression
import FilePipeline.Stage.Io

/-! # Steps of a dispatcher

Everything a dispatcher does of its own accord, one step at a time. `step` gives the state after a
step, or none if the step cannot be made now: a push waits for a slot, a pop for an item, a join for
the worker to be gone. Which of the possible steps comes next is left open.

A pill goes from the I/O stage to the compression stage and back, behind all work that was queued
before it. A worker that crashes abandons the work at hand; a worker that leaves closes its queue and
abandons what is in it, and if it crashed it sends the other worker a pill. -/

namespace FilePipeline

/-- What can happen next. -/
inductive Action where
  /-- A waiting submitter tries to push. -/
  | push (waiter : Nat)
  | pop (s : Stage)
  | process (s : Stage)
  | hand (s : Stage)
  | relay (s : Stage)
  | leave (s : Stage)
  /-- Stopping goes on. -/
  | halt
  deriving DecidableEq, Repr

namespace Dispatcher

variable {σ η κ : Type}

/-! ### Submitters -/

/-- A waiting submitter tries to push. Work rejected by a closed queue is abandoned. -/
def push (d : Dispatcher σ κ) (waiter : Nat) : Option (Dispatcher σ κ) :=
  match d.waiting[waiter]? with
  | none => none
  | some (s, w) =>
    let rest := { d with waiting := d.waiting.eraseIdx waiter }
    match (d.queues.get s).offer (.work w) with
    | .accepted q => some (rest.setQueue s q)
    | .full => none
    | .rejected => some ((rest.fail w .abandoned).notice .queueClosed)

/-! ### Workers -/

/-- What a worker that popped a pill does next. -/
def afterPill (d : Dispatcher σ κ) : Stage → Task
  | .io => if d.draining then .leaving false else .relaying
  | .compression => .relaying

/-- An idle worker pops an item. -/
def pop (d : Dispatcher σ κ) (s : Stage) : Option (Dispatcher σ κ) :=
  match d.tasks.get s with
  | .idle =>
    match (d.queues.get s).pop? with
    | .empty => none
    | .item (.work w) q => some ((d.setQueue s q).setTask s (.busy w))
    | .item .pill q => some ((d.setQueue s q).setTask s (d.afterPill s))
  | _ => none

/-- Whether a stage hands work on that it processed without error. -/
def handsOn (s : Stage) (w : Work) : Bool :=
  match s with
  | .io => w.op == .read && w.compressed
  | .compression => w.op == .write

/-- What follows from the processing of a piece of work: it is handed on or settled, or abandoned by a
    worker that crashed. -/
def conclude (d : Dispatcher σ κ) (s : Stage) (w : Work) (result : Attempt WorkError Unit) :
    Dispatcher σ κ :=
  match result with
  | .ok () =>
    if handsOn s w then d.setTask s (.handing w) else (d.settle w (.ok ())).setTask s .idle
  | .error (.error e) => (d.settle w (.error e)).setTask s .idle
  | .error (.crash _) => (d.abandon w).setTask s (.leaving true)

/-- A worker processes the work at hand. -/
def process (p : Setup σ η κ) (d : Dispatcher σ κ) (s : Stage) : Option (Dispatcher σ κ) :=
  match d.tasks.get s with
  | .busy w =>
    match s with
    | .io =>
      let r := Stage.processIo p d.heaps d.backend w
      some ({ d with heaps := r.heaps, backend := r.state }.conclude s r.work r.result)
    | .compression =>
      let r := Stage.processCompression p d.heaps d.codec w
      some ({ d with heaps := r.heaps, codec := r.state }.conclude s r.work r.result)
  | _ => none

/-- A worker hands work to the other stage. Work that is not taken is abandoned. -/
def hand (d : Dispatcher σ κ) (s : Stage) : Option (Dispatcher σ κ) :=
  match d.tasks.get s with
  | .handing w =>
    match (d.queues.get s.peer).forward? (.work w) with
    | some q => some ((d.setQueue s.peer q).setTask s .idle)
    | none => some ((d.abandon w).setTask s .idle)
  | _ => none

/-- A worker hands the pill to the other stage. The I/O worker then goes on to serve what comes back,
    unless the other stage is gone; the compression worker leaves. -/
def relay (d : Dispatcher σ κ) (s : Stage) : Option (Dispatcher σ κ) :=
  match d.tasks.get s with
  | .relaying =>
    match s, (d.queues.get s.peer).forward? .pill with
    | .io, some q => some ({ d.setQueue s.peer q with draining := true }.setTask s .idle)
    | .compression, some q => some ((d.setQueue s.peer q).setTask s (.leaving false))
    | _, none => some (d.setTask s (.leaving false))
  | _ => none

/-- The dispatcher after a pill was sent to a stage, which may be closed. -/
def sendPill (d : Dispatcher σ κ) (s : Stage) : Dispatcher σ κ :=
  match (d.queues.get s).forward? .pill with
  | some q => d.setQueue s q
  | none => d

/-- A worker leaves. -/
def leave (d : Dispatcher σ κ) (s : Stage) : Option (Dispatcher σ κ) :=
  match d.tasks.get s with
  | .leaving crashed =>
    let closed := (d.queues.get s).close
    let d := d.setQueue s closed.2
    let d := if crashed then d.sendPill s.peer else d
    some ((d.abandonAll closed.1).setTask s (.gone crashed))
  | _ => none

/-! ### Stopping -/

/-- The counters are logged and the dispatcher has stopped. -/
def finish (d : Dispatcher σ κ) (e : Option JoinError) : Dispatcher σ κ :=
  { d.notice (.stopped d.stats.completed d.stats.failed) with halt := .stopped e }

/-- What follows the joining of a worker. -/
def afterJoin : Stage → Option JoinError → Halt
  | .io, e => .joining .compression e
  | .compression, e => .closing .io e

/-- Joins a worker that is gone. -/
def join (d : Dispatcher σ κ) (s : Stage) (e : Option JoinError) : Option (Dispatcher σ κ) :=
  match d.tasks.get s with
  | .gone crashed =>
    match (d.workers.get s).join crashed with
    | .ok () => some { d with halt := afterJoin s e }
    | .error f => some { d.notice (.workerCrashed f) with halt := afterJoin s (e <|> some f) }
  | _ => none

/-- Stopping goes on: the pill, the two joins, the two queues. -/
def haltStep (d : Dispatcher σ κ) : Option (Dispatcher σ κ) :=
  match d.halt with
  | .running | .stopped _ => none
  | .pushing =>
    match d.queues.io.offer .pill with
    | .accepted q => some { d.setQueue .io q with halt := .joining .io none }
    | .full => none
    | .rejected => some { d with halt := .joining .io none }
  | .joining s e => d.join s e
  | .closing s e =>
    let closed := (d.queues.get s).close
    let d := (d.setQueue s closed.2).failAll closed.1
    match s with
    | .io => some { d with halt := .closing .compression e }
    | .compression => some (d.finish e)

/-- The state after an action, if the action can be taken. -/
def step (p : Setup σ η κ) (d : Dispatcher σ κ) : Action → Option (Dispatcher σ κ)
  | .push waiter => d.push waiter
  | .pop s => d.pop s
  | .process s => d.process p s
  | .hand s => d.hand s
  | .relay s => d.relay s
  | .leave s => d.leave s
  | .halt => d.haltStep

end Dispatcher

end FilePipeline
