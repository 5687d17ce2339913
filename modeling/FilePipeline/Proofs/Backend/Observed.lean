import FilePipeline.Proofs.Backend.PerPath

/-! # Backends that are listened to

`observed` is a backend that passes every call on and keeps a list of the calls that open, use and close a
file, each with its answer. Being listened to changes nothing: a whole transfer answers, reads and leaves
behind the same as without (`readFull_observed`, `writeFull_observed`). What it adds to the list is one
call after the other on one handle, each of which but the last was answered so that the loop goes on
(`Transfer`). -/

namespace FilePipeline.Backend

variable {σ η : Type} {b : Backend σ η}

/-- What is asked of an open file. -/
inductive Request where
  | size
  | read (room : Nat)
  | write (src : List UInt8)
  deriving DecidableEq, Repr

instance decidableEqAttempt {ε α : Type} [DecidableEq ε] [DecidableEq α] : DecidableEq (Attempt ε α)
  | .ok a, .ok a' => decidable_of_iff (a = a') ⟨congrArg _, Except.ok.inj⟩
  | .error f, .error f' => decidable_of_iff (f = f') ⟨congrArg _, Except.error.inj⟩
  | .ok _, .error _ => .isFalse fun h => by cases h
  | .error _, .ok _ => .isFalse fun h => by cases h

/-- A call of a backend with its answer. The file is used through the handle `before`, which is `after`
    then. -/
inductive Call (η : Type) where
  | opens (path : String) (mode : OpenMode) (answer : Attempt IoError η)
  | uses (request : Request) (before : η) (answer : Attempt IoError Nat) (after : η)
  | closes (handle : η) (answer : Attempt IoError Unit)
  deriving DecidableEq

/-- The state of a backend, and the calls it has had, oldest first. -/
structure Observed (σ η : Type) where
  state : σ
  calls : List (Call η) := []

/-- After a call that has led to the state `s`. -/
def Observed.note (o : Observed σ η) (s : σ) (c : Call η) : Observed σ η := ⟨s, o.calls ++ [c]⟩

/-- The backend that passes its calls on to `b` and keeps a list of them. -/
def observed (b : Backend σ η) : Backend (Observed σ η) η where
  translate o path := b.translate o.state path
  openFile o path mode :=
    let r := b.openFile o.state path mode
    ⟨r.result, o.note r.state (.opens path mode r.result)⟩
  querySize o h :=
    let r := b.querySize o.state h
    ⟨r.result, (o.note r.state.1 (.uses .size h r.result r.state.2), r.state.2)⟩
  read o h dst :=
    let r := b.read o.state h dst
    ⟨⟨r.result, (o.note r.state.1 (.uses (.read dst.size) h r.result r.state.2), r.state.2)⟩,
      r.written⟩
  write o h src :=
    let r := b.write o.state h src
    ⟨r.result, (o.note r.state.1 (.uses (.write src) h r.result r.state.2), r.state.2)⟩
  close o h :=
    let r := b.close o.state h
    ⟨r.result, o.note r.state (.closes h r.result)⟩
  patience x := b.patience (x.1.state, x.2)
  read_patience o h dst := b.read_patience o.state h dst
  write_patience o h src := b.write_patience o.state h src

theorem KeepsToSpans.observed (hb : b.KeepsToSpans) : b.observed.KeepsToSpans := by
  intro o h dst dst' hdst
  obtain ⟨hresult, hstate, hwritten⟩ := hb o.state h hdst
  refine ⟨hresult, ?_, hwritten⟩
  show (o.note (b.read o.state h dst).state.1 _, _) = (o.note (b.read o.state h dst').state.1 _, _)
  rw [hstate, hresult, hdst.size]

/-- Whether a transfer goes on after a call with this answer. -/
def goesOn : Attempt IoError Nat → Bool
  | .ok n => 0 < n
  | .error f => interrupted (.error f : Attempt IoError Nat)

/-- The calls of a transfer with requests of one kind, which takes the handle `h` and leaves the handle
    `h'`: after each of them but the last one it goes on. -/
inductive Transfer (kind : Request → Prop) : η → List (Call η) → η → Prop
  | none {h : η} : Transfer kind h [] h
  | last {q : Request} {a : Attempt IoError Nat} {h h' : η} (hq : kind q) :
      Transfer kind h [.uses q h a h'] h'
  | more {q : Request} {a : Attempt IoError Nat} {h h' h'' : η} {cs : List (Call η)} (hq : kind q)
      (ha : goesOn a = true) (rest : Transfer kind h' cs h'') :
      Transfer kind h (.uses q h a h' :: cs) h''

def Request.IsRead (q : Request) : Prop := ∃ room, q = .read room

/-- That bytes of `data` are to be written, from some offset on. -/
def Request.WritesOf (data : List UInt8) (q : Request) : Prop := ∃ n, q = .write (data.drop n)

/-- A reply, as it is given when the calls `cs` were made for it, after others. -/
def IoReply.after {α : Type} (r : IoReply (σ × η) α) (calls cs : List (Call η)) :
    IoReply (Observed σ η × η) α :=
  ⟨r.result, (⟨r.state.1, calls ++ cs⟩, r.state.2)⟩

def ReadReply.after (r : ReadReply (σ × η)) (calls cs : List (Call η)) : ReadReply (Observed σ η × η) :=
  ⟨IoReply.after r.toIoReply calls cs, r.written⟩

theorem IoReply.after_cons {α : Type} (r : IoReply (σ × η) α) (calls : List (Call η)) (c : Call η)
    (cs : List (Call η)) : IoReply.after r (calls ++ [c]) cs = IoReply.after r calls (c :: cs) := by
  unfold IoReply.after
  rw [List.append_assoc, List.singleton_append]

theorem ReadReply.after_cons (r : ReadReply (σ × η)) (calls : List (Call η)) (c : Call η)
    (cs : List (Call η)) :
    ReadReply.after r (calls ++ [c]) cs = ReadReply.after r calls (c :: cs) := by
  unfold ReadReply.after
  rw [IoReply.after_cons]

theorem Continues.goesOn {k m : Nat} {a : Attempt IoError Nat} (hgo : Continues k a m) :
    goesOn a = true := by
  cases hgo with
  | moved n ha =>
    rw [ha]
    rfl
  | again _ ha hi =>
    rw [ha] at hi ⊢
    exact hi

theorem readFrom_observed (b : Backend σ η) (s : σ) (h : η) (buf : Span) (filled : Nat) :
    ∀ calls, ∃ cs, Transfer Request.IsRead h cs (b.readFrom s h buf filled).state.2 ∧
      b.observed.readFrom ⟨s, calls⟩ h buf filled =
        ReadReply.after (b.readFrom s h buf filled) calls cs := by
  induction s, h, buf, filled using readFrom_induction b with
  | full s h buf filled hge =>
    intro calls
    refine ⟨[], .none, ?_⟩
    rw [readFrom_of_full hge]
    unfold ReadReply.after IoReply.after
    rw [List.append_nil]
  | halts s h buf filled r hlt hr =>
    intro calls
    exact ⟨_, .last (q := .read (buf.drop filled).size) ⟨_, rfl⟩,
      readFrom_of_halts hlt hr⟩
  | continues s h buf filled m hlt hgo ih =>
    intro calls
    obtain ⟨cs, hcs, heq⟩ := ih (calls ++ [.uses (.read (buf.drop filled).size) h
      (b.read s h (buf.drop filled)).result (b.read s h (buf.drop filled)).state.2])
    refine ⟨_, .more (q := .read (buf.drop filled).size) ⟨_, rfl⟩ hgo.goesOn hcs, ?_⟩
    rw [← ReadReply.after_cons, ← heq]
    exact readFrom_of_continues hlt hgo

theorem writeFrom_observed (b : Backend σ η) (s : σ) (h : η) (data : List UInt8) (written : Nat) :
    ∀ calls, ∃ cs, Transfer (Request.WritesOf data) h cs (b.writeFrom s h data written).state.2 ∧
      b.observed.writeFrom ⟨s, calls⟩ h data written =
        IoReply.after (b.writeFrom s h data written) calls cs := by
  induction s, h, written using writeFrom_induction b data with
  | full s h written hge =>
    intro calls
    refine ⟨[], .none, ?_⟩
    rw [writeFrom_of_full hge]
    unfold IoReply.after
    rw [List.append_nil]
  | halts s h written r hlt hr =>
    intro calls
    exact ⟨_, .last (q := .write (data.drop written)) ⟨_, rfl⟩,
      writeFrom_of_halts hlt hr⟩
  | continues s h written m hlt hgo ih =>
    intro calls
    obtain ⟨cs, hcs, heq⟩ := ih (calls ++ [.uses (.write (data.drop written)) h
      (b.write s h (data.drop written)).result (b.write s h (data.drop written)).state.2])
    refine ⟨_, .more (q := .write (data.drop written)) ⟨_, rfl⟩ hgo.goesOn hcs, ?_⟩
    rw [← IoReply.after_cons, ← heq]
    exact writeFrom_of_continues hlt hgo

theorem readFull_observed (b : Backend σ η) (s : σ) (h : η) (buf : Span) (calls : List (Call η)) :
    ∃ cs, Transfer Request.IsRead h cs (b.readFull s h buf).state.2 ∧
      b.observed.readFull ⟨s, calls⟩ h buf = ReadReply.after (b.readFull s h buf) calls cs :=
  readFrom_observed b s h buf 0 calls

theorem writeFull_observed (b : Backend σ η) (s : σ) (h : η) (data : List UInt8)
    (calls : List (Call η)) :
    ∃ cs, Transfer (Request.WritesOf data) h cs (b.writeFull s h data).state.2 ∧
      b.observed.writeFull ⟨s, calls⟩ h data = IoReply.after (b.writeFull s h data) calls cs :=
  writeFrom_observed b s h data 0 calls

end FilePipeline.Backend
