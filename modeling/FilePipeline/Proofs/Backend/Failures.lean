import FilePipeline.Proofs.Backend.Loops

/-! # Where a platform error comes from

A whole transfer fails with what one of its calls has answered, or because a write took nothing
(`readFull_fails`, `writeFull_fails`). -/

namespace FilePipeline.Backend

variable {σ η : Type} {b : Backend σ η} {e : IoError}

/-- Some call by which work is done on a file fails with `e`. Closing is not one of them. -/
inductive Fails (b : Backend σ η) (e : IoError) : Prop
  | openFile {s : σ} {path : String} {mode : OpenMode}
      (h : (b.openFile s path mode).result = .error (.error e)) : Fails b e
  | querySize {s : σ} {x : η} (h : (b.querySize s x).result = .error (.error e)) : Fails b e
  | read {s : σ} {x : η} {dst : Span} (h : (b.read s x dst).result = .error (.error e)) : Fails b e
  | write {s : σ} {x : η} {src : List UInt8} (h : (b.write s x src).result = .error (.error e)) :
      Fails b e

theorem readFrom_fails (s : σ) (x : η) (buf : Span) (filled : Nat) :
    (b.readFrom s x buf filled).result = .error (.error e) → b.Fails e := by
  induction s, x, buf, filled using readFrom_induction b with
  | full => exact fun h => by cases h
  | halts s x buf filled r hlt hr =>
    intro h
    obtain rfl : r = .error (.error e) := h
    cases hr with
    | stopped _ hr | overflow _ _ _ hr => cases hr
    | failed _ ha _ hr =>
      cases hr
      exact .read ha
  | continues _ _ _ _ _ _ _ ih => exact ih

theorem writeFrom_fails (s : σ) (x : η) (data : List UInt8) (written : Nat) :
    (b.writeFrom s x data written).result = .error (.error e) →
      e = .acceptedNothing ∨ b.Fails e := by
  induction s, x, written using writeFrom_induction b data with
  | full => exact fun h => by cases h
  | halts s x written r hlt hr =>
    intro h
    obtain rfl : r = .error (.error e) := h
    cases hr with
    | stopped _ hr =>
      cases hr
      exact Or.inl rfl
    | overflow _ _ _ hr => cases hr
    | failed _ ha _ hr =>
      cases hr
      exact Or.inr (.write ha)
  | continues _ _ _ _ _ _ ih => exact ih

theorem readFull_fails {s : σ} {x : η} {buf : Span}
    (h : (b.readFull s x buf).result = .error (.error e)) : b.Fails e := readFrom_fails s x buf 0 h

theorem writeFull_fails {s : σ} {x : η} {data : List UInt8}
    (h : (b.writeFull s x data).result = .error (.error e)) : e = .acceptedNothing ∨ b.Fails e :=
  writeFrom_fails s x data 0 h

end FilePipeline.Backend
