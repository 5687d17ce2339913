import FilePipeline.Crash
import FilePipeline.Text.Inspect

/-! # Bounded queues

A queue holds work in order of acceptance. What submitters push takes one of the queue's slots until
it is popped, and a push waits while all slots are taken. What one stage of the pipeline forwards to
another takes no slot and never waits. A pill travels like any other item and tells the consumer to
stop. Closing a queue rejects everything from then on and hands back what was still queued.

Each function here is one step under the queue's lock: `offer` is one attempt of a push and `pop?`
one attempt of a pop, and whoever has to wait repeats the attempt. -/

namespace FilePipeline

/-- What travels through a queue. -/
inductive Item (α : Type) where
  | work (w : α)
  | pill
  deriving DecidableEq, Repr, Inhabited

/-- A queued item, and whether it takes a slot. -/
structure Entry (α : Type) where
  item : Item α
  counted : Bool
  deriving DecidableEq, Repr

/-- A queue with its slots. -/
structure Queue (α : Type) where
  capacity : Nat
  entries : List (Entry α) := []
  /-- The number of slots taken. -/
  admitted : Nat := 0
  closed : Bool := false
  deriving Repr, Inhabited

/-- The outcome of one attempt to push. -/
inductive Offer (α : Type) where
  | accepted (q : Queue α)
  | full
  | rejected

/-- The outcome of one attempt to pop. -/
inductive Pop (α : Type) where
  | item (i : Item α) (q : Queue α)
  | empty

namespace Queue

variable {α : Type}

/-- The bytes of memory that all entries together may take. -/
def maxBytes : Nat := Nat.pow 2 63 - 8

/-- An open, empty queue; it has at least one slot. -/
def ofCapacity (n : Nat) : Queue α := { capacity := max n 1 }

/-- The bytes of an entry: the words of its item, and a word for whether it takes a slot. -/
def entryBytes (itemWords : Nat) : Nat := 8 * (itemWords + 1)

/-- Sets a queue up, with memory for an item of `itemWords` words in each slot. Memory past `maxBytes`
    is a crash. Less than that (fewer than `2 ^ 59` slots, for references) can still be more than the
    machine has; then the whole process is aborted, and no such machine is modelled. -/
def create (itemWords n : Nat) : Except Crash (Queue α) :=
  if max n 1 * entryBytes itemWords ≤ maxBytes then .ok (ofCapacity n)
  else .error .capacityOverflow

/-- Sets a queue of numbers up; an item is a number and the word that tells it from a pill. -/
def ofNumbers (n : Nat) : Except Crash (Queue Int) := create 2 n

/-- Sets a queue up whose items are referred to: an item is a reference, and none is a pill. -/
def ofReferences (n : Nat) : Except Crash (Queue α) := create 1 n

def items (q : Queue α) : List (Item α) := q.entries.map Entry.item

def length (q : Queue α) : Nat := q.entries.length

def isEmpty (q : Queue α) : Bool := q.entries.isEmpty

/-- The queue with an item added behind all others. -/
def append (q : Queue α) (i : Item α) (counted : Bool) : Queue α :=
  { q with
    entries := q.entries ++ [⟨i, counted⟩]
    admitted := if counted then q.admitted + 1 else q.admitted }

/-- One attempt to push a submitted item. -/
def offer (q : Queue α) (i : Item α) : Offer α :=
  if q.closed then .rejected
  else if q.capacity ≤ q.admitted then .full
  else .accepted (q.append i true)

/-- Adds an item handed over by another stage; none if the queue is closed. -/
def forward? (q : Queue α) (i : Item α) : Option (Queue α) :=
  if q.closed then none else some (q.append i false)

/-- One attempt to pop the oldest item. A closed queue that is empty yields a pill. -/
def pop? (q : Queue α) : Pop α :=
  match q.entries with
  | e :: rest =>
    .item e.item
      { q with entries := rest, admitted := if e.counted then q.admitted - 1 else q.admitted }
  | [] => if q.closed then .item .pill q else .empty

/-- Closes the queue and hands back what was queued. -/
def close (q : Queue α) : List (Item α) × Queue α :=
  (q.items, { q with entries := [], admitted := 0, closed := true })

def inspect (q : Queue α) : String :=
  Text.record "BoundedQueue"
    [("capacity", toString q.capacity), ("len", toString q.length),
      ("admitted", toString q.admitted), ("closed", Text.truth q.closed)]

end Queue

end FilePipeline
