import FilePipeline.Dispatcher.Step

/-! # Runs of a dispatcher

Lets a dispatcher make steps until none is possible. Every step brings the dispatcher closer to rest:
`potential` is a bound on the number of steps still to come, made up of what each piece of work, each
pill, each worker and the stopping have left to do, and it serves as the fuel of a run. -/

namespace FilePipeline.Dispatcher

variable {σ η κ : Type}

/-! ### What is left to do -/

/-- The steps left for a piece of work in the queue of a stage. -/
def workload (s : Stage) (w : Work) : Nat := if handsOn s w then 5 else 2

/-- The steps left for a piece of work about to be handed on. -/
def handingLoad : Nat := 3

/-- The steps left for an item in the queue of a stage. -/
def itemLoad (s : Stage) : Item Work → Nat
  | .work w => workload s w
  | .pill => 1

/-- The steps left for everything in the queue of a stage. -/
def queueLoad (s : Stage) (q : Queue Work) : Nat :=
  q.items.foldr (fun i n => itemLoad s i + n) 0

/-- The steps left for a worker without work. -/
def workerLoad (draining : Bool) : Stage → Nat
  | .io => if draining then 6 else 10
  | .compression => 6

/-- The steps left for a worker with what it has at hand. -/
def taskLoad (draining : Bool) (s : Stage) : Task → Nat
  | .idle => workerLoad draining s
  | .busy w => workerLoad draining s + (workload s w - 1)
  | .handing _ => workerLoad draining s + handingLoad
  | .relaying => workerLoad false s - 1
  | .leaving _ => 3
  | .gone _ => 0

/-- The steps left for stopping. -/
def haltLoad : Halt → Nat
  | .running => 0
  | .pushing => 7
  | .joining .io _ => 5
  | .joining .compression _ => 4
  | .closing .io _ => 3
  | .closing .compression _ => 2
  | .stopped _ => 0

/-- A bound on the number of steps to come. -/
def potential (d : Dispatcher σ κ) : Nat :=
  d.waiting.foldr (fun x n => workload x.1 x.2 + 1 + n) 0
    + queueLoad .io d.queues.io + queueLoad .compression d.queues.compression
    + taskLoad d.draining .io d.tasks.io + taskLoad d.draining .compression d.tasks.compression
    + haltLoad d.halt

/-! ### Running -/

/-- The actions that can be thought of. -/
def actions (d : Dispatcher σ κ) : List Action :=
  [.leave .io, .leave .compression, .relay .io, .relay .compression, .hand .io, .hand .compression,
    .process .io, .process .compression, .pop .io, .pop .compression]
    ++ (List.range d.waiting.length).map Action.push ++ [.halt]

/-- The state after the first possible action among those allowed. -/
def next? (p : Setup σ η κ) (allowed : Dispatcher σ κ → Action → Bool) (d : Dispatcher σ κ) :
    Option (Dispatcher σ κ) :=
  (d.actions.filter (allowed d)).findSome? (d.step p)

def runFor (p : Setup σ η κ) (allowed : Dispatcher σ κ → Action → Bool) :
    Nat → Dispatcher σ κ → Dispatcher σ κ
  | 0, d => d
  | n + 1, d =>
    match d.next? p allowed with
    | some d => runFor p allowed n d
    | none => d

/-- Makes steps until none of those allowed is possible. -/
def runWhile (p : Setup σ η κ) (allowed : Dispatcher σ κ → Action → Bool) (d : Dispatcher σ κ) :
    Dispatcher σ κ :=
  runFor p allowed d.potential d

def run (p : Setup σ η κ) (d : Dispatcher σ κ) : Dispatcher σ κ := d.runWhile p fun _ _ => true

end FilePipeline.Dispatcher
