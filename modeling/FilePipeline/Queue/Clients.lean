import FilePipeline.Queue

/-! # A queue and those who wait for it

A queue with at most one producer waiting for a slot and at most one consumer waiting for an item.
Each call makes its step and then lets whoever waits try again, so that a wait ends as soon as it
can. -/

namespace FilePipeline

/-- How a push or forward ended. -/
inductive Pushed (α : Type) where
  | accepted
  /-- The queue was closed; the item is handed back. -/
  | rejected (i : Item α)
  deriving Repr

/-- The answer to a call. -/
inductive Answer (α : Type) where
  | pushed (p : Pushed α)
  | popped (i : Item α)
  | closed (drained : List (Item α))
  | waits
  /-- Another call of the kind waits already; this one was not made. -/
  | busy

/-- A queue with its waiting clients. -/
structure Clients (α : Type) where
  queue : Queue α
  producer : Option (Item α) := none
  consumer : Bool := false

/-- What a call did: its answer, and what the waits that it ended came to. -/
structure Turn (α : Type) where
  answer : Answer α
  pushed : Option (Pushed α) := none
  popped : Option (Item α) := none
  clients : Clients α

namespace Clients

variable {α : Type}

/-- Lets the waiting producer try again. -/
def retryPush (c : Clients α) : Option (Pushed α) × Clients α :=
  match c.producer with
  | none => (none, c)
  | some i =>
    match c.queue.offer i with
    | .accepted q => (some .accepted, { c with queue := q, producer := none })
    | .rejected => (some (.rejected i), { c with producer := none })
    | .full => (none, c)

/-- Lets the waiting consumer try again. -/
def retryPop (c : Clients α) : Option (Item α) × Clients α :=
  if c.consumer then
    match c.queue.pop? with
    | .item i q => (some i, { c with queue := q, consumer := false })
    | .empty => (none, c)
  else (none, c)

/-- Lets both try again after a call. -/
def settle (c : Clients α) (a : Answer α) : Turn α :=
  let pushed := c.retryPush
  let popped := pushed.2.retryPop
  { answer := a, pushed := pushed.1, popped := popped.1, clients := popped.2 }

/-- Pushes an item, waiting if all slots are taken. -/
def push (c : Clients α) (i : Item α) : Turn α :=
  match c.queue.offer i with
  | .accepted q => settle { c with queue := q } (.pushed .accepted)
  | .rejected => settle c (.pushed (.rejected i))
  | .full =>
    if c.producer.isSome then { answer := .busy, clients := c }
    else { answer := .waits, clients := { c with producer := some i } }

/-- Forwards an item. -/
def forward (c : Clients α) (i : Item α) : Turn α :=
  match c.queue.forward? i with
  | some q => settle { c with queue := q } (.pushed .accepted)
  | none => settle c (.pushed (.rejected i))

/-- Pops an item, waiting if there is none. -/
def pop (c : Clients α) : Turn α :=
  match c.queue.pop? with
  | .item i q => settle { c with queue := q } (.popped i)
  | .empty =>
    if c.consumer then { answer := .busy, clients := c }
    else { answer := .waits, clients := { c with consumer := true } }

/-- Closes the queue. -/
def close (c : Clients α) : Turn α :=
  let r := c.queue.close
  settle { c with queue := r.2 } (.closed r.1)

end Clients

end FilePipeline
