import FilePipeline.Dispatcher.Run

/-! # Starting a dispatcher

A dispatcher starts with a valid configuration, two empty queues and two workers. The platform may
refuse a worker; if it refuses the second one, the queue of the first is closed, which makes it leave,
and starting fails. A crash on the way leaves behind whatever was started before it. -/

namespace FilePipeline

/-- What workers are started on: the cores, and which workers, counted from zero, the platform
    refuses. -/
structure Platform where
  cores : Cores
  refusal : Nat → Option IoError := fun _ => none

/-- Why a dispatcher did not start. -/
inductive StartError where
  | config (e : ConfigError)
  /-- The platform refused the worker of this name. -/
  | worker (s : Stage) (name : String) (e : IoError)

def StartError.message : StartError → String
  | .config e => s!"Invalid dispatcher configuration: {e.message}"
  | .worker s name e =>
    let which := match s with
      | .io => "I/O"
      | .compression => "compression"
    s!"Failed to start the {which} worker: Failed to spawn worker thread `{name}`: {e.message}"

/-- What starting came to: the dispatcher, or why there is none, and the workers that run without
    one. -/
structure Started (σ κ : Type) where
  answer : Attempt StartError (Dispatcher σ κ)
  stranded : List Worker := []

namespace Dispatcher

variable {σ η κ : Type}

/-- The name of a stage's worker. -/
def workerName (c : Config) : Stage → String
  | .io => c.ioThreadName
  | .compression => c.compressionThreadName

def startWorker (platform : Platform) (c : Config) (s : Stage) : Attempt StartError Worker :=
  let n := match s with
    | .io => 0
    | .compression => 1
  match Worker.start platform.cores c.pinThreads n (workerName c s) with
  | .error crash => Attempt.crash crash
  | .ok w =>
    match platform.refusal n with
    | some e => Attempt.fail (.worker s w.name e)
    | none => .ok w

/-- Whether the I/O worker, alone with its queue closed, goes away. -/
def leavesAlone (p : Setup σ η κ) (d : Dispatcher σ κ) : Bool :=
  let alone := { d.setQueue .io d.queues.io.close.2 with tasks := ⟨.idle, .gone false⟩ }
  match (alone.run p).tasks.io with
  | .gone _ => true
  | _ => false

def start (p : Setup σ η κ) (platform : Platform) (heaps : Heaps) (backend : σ) (codec : κ) :
    Started σ κ :=
  match p.config.validate with
  | .error e => ⟨Attempt.fail (.config e), []⟩
  | .ok () =>
    match Queue.ofReferences p.config.queueCapacity with
    | .error c => ⟨Attempt.crash c, []⟩
    | .ok q =>
      match startWorker platform p.config .io with
      | .error f => ⟨.error f, []⟩
      | .ok io =>
        let assembled (compression : Worker) : Dispatcher σ κ :=
          { heaps, backend, codec, workers := ⟨io, compression⟩, queues := ⟨q, q⟩ }
        match startWorker platform p.config .compression with
        | .ok compression =>
          ⟨.ok ((assembled compression).notice (.started (heaps.name p.ownHeap))), []⟩
        | .error (.error e) =>
          ⟨Attempt.fail e, if (assembled default).leavesAlone p then [] else [io]⟩
        | .error (.crash c) => ⟨Attempt.crash c, [io]⟩

end Dispatcher

end FilePipeline
