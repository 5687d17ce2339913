/-! # Crashes and attempts

A step of the pipeline ends in one of three ways: with a value, with an error that is stored in the
work it belongs to, or with a crash, which takes down the worker that runs the step. `Attempt` is
the type of such steps; `Crash` lists what can bring one down. -/

namespace FilePipeline

/-- What brings a step down. -/
inductive Crash where
  | addOverflow
  | mulOverflow
  | lengthPastCapacity
  | capacityOverflow
  /-- A worker name with a zero byte at this offset. -/
  | nameWithZero (name : List UInt8) (offset : Nat)
  /-- A component supplied from outside brought the step down, with this text. -/
  | component (text : String)
  deriving DecidableEq, Repr, Inhabited

/-- The text a crash leaves. -/
def Crash.message : Crash → String
  | .addOverflow => "attempt to add with overflow"
  | .mulOverflow => "attempt to multiply with overflow"
  | .lengthPastCapacity => "length exceeds buffer capacity"
  | .capacityOverflow => "capacity overflow"
  | .nameWithZero name offset =>
    s!"thread name may not contain interior null bytes: NulError({offset}, [" ++
      String.intercalate ", " (name.map fun b => toString b.toNat) ++ "])"
  | .component text => text

/-- Why a step produced no value. -/
inductive Fault (ε : Type) where
  | error (e : ε)
  | crash (c : Crash)
  deriving DecidableEq, Repr

/-- A step that may fail with an error of type `ε` or crash. -/
abbrev Attempt (ε α : Type) := Except (Fault ε) α

namespace Attempt

variable {ε δ α : Type}

def fail (e : ε) : Attempt ε α := .error (.error e)

def crash (c : Crash) : Attempt ε α := .error (.crash c)

/-- Renames the errors of an attempt and keeps its crashes. -/
def mapError (f : ε → δ) : Attempt ε α → Attempt δ α
  | .ok a => .ok a
  | .error (.error e) => fail (f e)
  | .error (.crash c) => crash c

/-- A step that fails but cannot crash. -/
def ofExcept : Except ε α → Attempt ε α
  | .ok a => .ok a
  | .error e => fail e

/-- A step that crashes but cannot fail. -/
def ofCrash : Except Crash α → Attempt ε α
  | .ok a => .ok a
  | .error c => crash c

def crashed : Attempt ε α → Bool
  | .error (.crash _) => true
  | _ => false

@[simp] theorem mapError_ok (f : ε → δ) (a : α) : mapError f (.ok a) = .ok a := rfl

@[simp] theorem mapError_fail (f : ε → δ) (e : ε) :
    mapError f (.error (.error e) : Attempt ε α) = fail (f e) := rfl

@[simp] theorem mapError_crash (f : ε → δ) (c : Crash) :
    mapError f (.error (.crash c) : Attempt ε α) = crash c := rfl

@[simp] theorem crashed_ofExcept (r : Except ε α) : (ofExcept r).crashed = false := by
  cases r <;> rfl

theorem ofExcept_eq_ok {r : Except ε α} {a : α} : ofExcept r = .ok a ↔ r = .ok a := by
  cases r with
  | ok b => exact ⟨(fun h => by cases h; rfl), fun h => by cases h; rfl⟩
  | error e => exact ⟨(fun h => by cases h), fun h => by cases h⟩

theorem ofExcept_eq_fail {r : Except ε α} {e : ε} : ofExcept r = fail e ↔ r = .error e := by
  cases r with
  | ok b => exact ⟨(fun h => by cases h), fun h => by cases h⟩
  | error e => exact ⟨(fun h => by cases h; rfl), fun h => by cases h; rfl⟩

theorem fails_of_ofExcept {r : Except ε α} {f : Fault ε} (h : ofExcept r = .error f) :
    ∃ e, f = .error e := by
  cases r with
  | ok b => cases h
  | error e => exact ⟨e, (Except.error.inj h).symm⟩

theorem mapError_eq_ok {f : ε → δ} {r : Attempt ε α} {a : α} : mapError f r = .ok a ↔ r = .ok a := by
  rcases r with (e | c) | a'
  · exact ⟨(fun h => by cases h), fun h => by cases h⟩
  · exact ⟨(fun h => by cases h), fun h => by cases h⟩
  · exact ⟨(fun h => by cases h; rfl), fun h => by cases h; rfl⟩

theorem exists_mapError_error (f : ε → δ) (x : Fault ε) :
    ∃ y, mapError f (.error x : Attempt ε α) = .error y := by
  cases x <;> exact ⟨_, rfl⟩

theorem mapError_eq_error {f : ε → δ} {r : Attempt ε α} {d : δ} :
    mapError f r = .error (.error d) ↔ ∃ e, r = .error (.error e) ∧ f e = d := by
  constructor
  · intro h
    rcases r with (e | c) | a
    · exact ⟨e, rfl, by cases h; rfl⟩
    · cases h
    · cases h
  · rintro ⟨e, rfl, rfl⟩
    rfl

end Attempt

end FilePipeline
