import FilePipeline.Text.Inspect

/-! # Completion events

An event is raised once and can be waited for by threads and by tasks. It keeps its state twice: a
flag that is read without the lock, and, under the lock, a second flag with the wakers of the tasks
that poll. Raising takes the lock, sets both flags and takes the wakers out; they are woken after the
lock is released. Polling first reads the open flag, and only if it is down takes the lock to look
again and to leave its waker. Each of these steps is a function here. -/

namespace FilePipeline

/-- An event whose wakers are of type `ω`. -/
structure Event (ω : Type) where
  /-- The flag that is read without the lock. -/
  raised : Bool := false
  /-- The flag under the lock. -/
  latched : Bool := false
  /-- The wakers of polls that found the event down, in order of registration. -/
  wakers : List ω := []
  deriving Repr, Inhabited

/-- What a poll found. -/
inductive Poll where
  | ready
  | pending
  deriving DecidableEq, Repr

namespace Event

variable {ω : Type}

/-- Raises the event. Answers whether this call raised it, and with the wakers to be woken. -/
def raise (e : Event ω) : Bool × List ω × Event ω :=
  if e.latched then (false, [], e)
  else (true, e.wakers, { raised := true, latched := true, wakers := [] })

/-- The part of a poll under the lock: looks again and registers the waker, unless one that wakes the
    same task is registered already. -/
def register [BEq ω] (e : Event ω) (w : ω) : Poll × Event ω :=
  if e.latched then (.ready, e)
  else if e.wakers.contains w then (.pending, e)
  else (.pending, { e with wakers := e.wakers ++ [w] })

def poll [BEq ω] (e : Event ω) (w : ω) : Poll × Event ω :=
  if e.raised then (.ready, e) else e.register w

/-- Whether a thread that waits goes on. -/
def released (e : Event ω) : Bool := e.raised || e.latched

def inspect (e : Event ω) : String :=
  Text.record "CompletionEvent" [("raised", Text.truth e.raised)]

end Event

/-- An event with the threads that wait for it and the futures that poll it. -/
structure Watched (φ ω : Type) where
  event : Event ω := {}
  waiting : Nat := 0
  /-- The futures created and not dropped. -/
  futures : List φ := []
  deriving Inhabited

/-- What one call brought about: the wakers woken and the number of threads released. -/
structure Woken (ω : Type) where
  wakers : List ω := []
  threads : Nat := 0
  deriving Repr

namespace Watched

variable {φ ω : Type}

/-- Lets the waiting threads look at the event. -/
def release (w : Watched φ ω) (wakers : List ω) : Woken ω × Watched φ ω :=
  if w.event.released then ({ wakers, threads := w.waiting }, { w with waiting := 0 })
  else ({ wakers }, w)

/-- Raises the event; answers whether this call did it. -/
def signal (w : Watched φ ω) : Bool × Woken ω × Watched φ ω :=
  let r := w.event.raise
  (r.1, release { w with event := r.2.2 } r.2.1)

/-- Polls a future, which is created at its first poll, with a waker. -/
def poll [BEq φ] [BEq ω] (w : Watched φ ω) (future : φ) (waker : ω) : Poll × Watched φ ω :=
  let futures := if w.futures.contains future then w.futures else w.futures ++ [future]
  let r := w.event.poll waker
  (r.1, { w with event := r.2, futures })

/-- Drops a future; answers whether it existed. Its waker stays registered. -/
def dropFuture [BEq φ] (w : Watched φ ω) (future : φ) : Bool × Watched φ ω :=
  (w.futures.contains future, { w with futures := w.futures.erase future })

/-- Lets `n` more threads wait; answers with the number of threads that wait then. -/
def spawn (w : Watched φ ω) (n : Nat) : Nat × Woken ω × Watched φ ω :=
  let w := { w with waiting := w.waiting + n }
  (w.waiting, w.release [])

end Watched

end FilePipeline
