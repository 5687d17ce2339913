/-! # Named values

A list of values, each under a name of its own, in ascending order of the names. Whoever goes through
all of them, as when all are dropped, follows this order. -/

namespace FilePipeline

/-- Values by name, in ascending order of the names. -/
abbrev Named (α : Type) := List (String × α)

namespace Named

variable {α : Type}

def find? (m : Named α) (name : String) : Option α := (List.find? (·.1 == name) m).map Prod.snd

/-- Whether a name comes before another one: where they first differ, its code point is smaller. -/
def before (a b : String) : Bool :=
  List.lex (a.toList.map Char.toNat) (b.toList.map Char.toNat) Nat.blt

/-- The values after one was stored under a name, in place of the one there. -/
def put : Named α → String → α → Named α
  | [], name, a => [(name, a)]
  | p :: rest, name, a =>
    if p.1 == name then (name, a) :: rest
    else if before name p.1 then (name, a) :: p :: rest
    else p :: put rest name a

def remove (m : Named α) (name : String) : Named α := List.filter (fun p => !(p.1 == name)) m

theorem find?_put_self (m : Named α) (name : String) (a : α) :
    find? (put m name a) name = some a := by
  induction m with
  | nil => simp [put, find?]
  | cons p rest ih =>
    unfold put
    split
    · simp [find?]
    · split
      · simp [find?]
      · simp_all [find?]

theorem find?_put_of_ne (m : Named α) {name other : String} (a : α) (h : other ≠ name) :
    find? (put m name a) other = find? m other := by
  induction m with
  | nil => simp [put, find?, h.symm]
  | cons p rest ih =>
    unfold put
    split
    · simp_all [find?, h.symm]
    · split
      · simp [find?, h.symm]
      · by_cases hp : p.1 = other <;> simp_all [find?]

end Named

end FilePipeline
