import FilePipeline.Heap.Bench
import FilePipeline.Proofs.Heap.Pieces
import Mathlib.Logic.Function.Basic

/-! # Buffers at hand

A client allocates buffers from any heaps, has bytes copied into new ones, and calls those at hand, in any
order and as often as it likes (`Bench.Act`). Beside the bench there is a record for each name: what the
buffer under it was allocated with, and the pieces that were written to it since (`Bench.note`). An act keeps
every buffer intact by its record (`Kept.after`). So after any acts there is a buffer under a name exactly if
there is a record of it, and the buffer is sound (`buffers_sound`). -/

namespace FilePipeline.Bench

/-- What a client does with buffers. -/
inductive Act where
  | allocate (name heap : String) (capacity align : Nat)
  | copyOf (name heap : String) (data : List UInt8)
  | call (name : String) (c : Buffer.Call)

/-- The bench after an act. There is nothing to call under a name without a buffer. -/
def after (b : Bench) : Act → Bench
  | .allocate name heap capacity align => (b.allocate name heap capacity align).2.1
  | .copyOf name heap data => (b.copyOf name heap data).2.1
  | .call name c =>
    match b.buffer? name with
    | some buffer => b.replace name (buffer.perform c).2
    | none => b

/-- Records of buffers by name. -/
abbrev Records := String → Option Buffer.Record

/-- The records after an act: a new buffer gets a new one, and a call is added to that of its buffer. -/
def note (b : Bench) (rs : Records) : Act → Records
  | .allocate name heap capacity align =>
    match (b.allocate name heap capacity align).1 with
    | .ok () => Function.update rs name (some { capacity, align })
    | .error _ => rs
  | .copyOf name heap data =>
    match (b.copyOf name heap data).1 with
    | .ok () => Function.update rs name
        (some { capacity := data.length, align := defaultAlignment, pieces := [⟨0, data⟩] })
    | .error _ => rs
  | .call name c =>
    match b.buffer? name, rs name with
    | some buffer, some r => Function.update rs name (some (r.add (buffer.written c)))
    | _, _ => rs

/-- The bench and the records after acts, at first without any buffer. -/
def recorded (d : HeapDirectory) (acts : List Act) : Bench × Records :=
  acts.foldl (fun s a => (s.1.after a, s.1.note s.2 a)) ({ directory := d }, fun _ => none)

variable {b : Bench} {rs : Records} {name : String} {buffer : Buffer} {r : Buffer.Record}

/-! ### What is under the names -/

theorem buffer?_replace (b : Bench) (name : String) (buffer : Buffer) :
    (b.replace name buffer).buffer? = Function.update b.buffer? name (some buffer) := by
  funext other
  by_cases h : other = name
  · subst h
    rw [Function.update_self]
    exact Named.find?_put_self _ _ _
  · rw [Function.update_of_ne h]
    exact Named.find?_put_of_ne _ _ h

theorem buffer?_keep (b : Bench) (name : String) (buffer : Buffer) :
    (b.keep name buffer).1.buffer? = Function.update b.buffer? name (some buffer) :=
  b.buffer?_replace name buffer

theorem keepNew_cases (b : Bench) (name : String) (x : Except AllocError Buffer × Heaps) :
    (∃ e, x.1 = .error e ∧ (b.keepNew name x).1 = .error e ∧ (b.keepNew name x).2.1.buffer? = b.buffer?) ∨
      ∃ buffer, x.1 = .ok buffer ∧ (b.keepNew name x).1 = .ok () ∧
        (b.keepNew name x).2.1.buffer? = Function.update b.buffer? name (some buffer) := by
  obtain ⟨e | buffer, hs⟩ := x
  · exact Or.inl ⟨e, rfl, rfl, rfl⟩
  · exact Or.inr ⟨buffer, rfl, rfl, (b.withHeaps hs).buffer?_keep name buffer⟩

/-! ### Records that are kept -/

/-- There is a buffer under a name exactly if there is a record, and it is intact by that. -/
def Kept (b : Bench) (rs : Records) : Prop := ∀ name, Option.Rel Buffer.Intact (b.buffer? name) (rs name)

theorem Kept.congr {b' : Bench} (h : Kept b rs) (hb : b'.buffer? = b.buffer?) : Kept b' rs :=
  fun name => hb ▸ h name

theorem Kept.update {b' : Bench} (h : Kept b rs) (hr : buffer.Intact r)
    (hb : b'.buffer? = Function.update b.buffer? name (some buffer)) :
    Kept b' (Function.update rs name (some r)) := by
  intro other
  rw [hb]
  by_cases ho : other = name
  · subst ho
    rw [Function.update_self, Function.update_self]
    exact .some hr
  · rw [Function.update_of_ne ho, Function.update_of_ne ho]
    exact h other

theorem Kept.after (h : Kept b rs) (a : Act) : Kept (b.after a) (b.note rs a) := by
  cases a with
  | allocate name heap capacity align =>
    unfold Bench.after note Bench.allocate
    dsimp only
    rcases b.keepNew_cases name (b.directory.heaps.newBuffer (b.directory.resolve heap) capacity align)
      with ⟨e, -, hreply, hb⟩ | ⟨buffer, hnew, hreply, hb⟩
    · rw [hreply]
      exact h.congr hb
    · rw [hreply]
      exact h.update (Buffer.intact_newBuffer (Prod.ext hnew rfl)) hb
  | copyOf name heap data =>
    unfold Bench.after note Bench.copyOf
    dsimp only
    rcases b.keepNew_cases name (b.directory.heaps.bufferOf (b.directory.resolve heap) data)
      with ⟨e, -, hreply, hb⟩ | ⟨buffer, hnew, hreply, hb⟩
    · rw [hreply]
      exact h.congr hb
    · rw [hreply]
      exact h.update (Buffer.intact_bufferOf (Prod.ext hnew rfl)) hb
  | call name c =>
    -- a buffer under the name has a record, which the call is added to
    have hname := h name
    unfold Bench.after note
    dsimp only
    cases hbuffer : b.buffer? name with
    | none => exact h
    | some buffer =>
      rw [hbuffer] at hname
      cases hr : rs name with
      | none =>
        rw [hr] at hname
        cases hname
      | some r =>
        rw [hr] at hname
        cases hname with
        | some hintact => exact h.update (hintact.perform c) (b.buffer?_replace name _)

theorem Kept.sound (h : Kept b rs) (name : String) :
    Option.Rel Buffer.Sound (b.buffer? name) (rs name) := by
  have hrel : ∀ {x : Option Buffer} {y : Option Buffer.Record},
      Option.Rel Buffer.Intact x y → Option.Rel Buffer.Sound x y := by
    rintro _ _ (hintact | -)
    · exact .some hintact.sound
    · exact .none
  exact hrel (h name)

theorem kept_recorded (d : HeapDirectory) (acts : List Act) :
    Kept (recorded d acts).1 (recorded d acts).2 :=
  List.foldlRecOn (motive := fun s : Bench × Records => Kept s.1 s.2) acts _ (fun _ => .none)
    fun _ h a _ => h.after a

/-- After any acts, every buffer at hand is sound by its record. A request for another one whose layout is
rejected is refused before any heap is asked. -/
theorem buffers_sound (d : HeapDirectory) (acts : List Act) :
    (∀ name, Option.Rel Buffer.Sound ((recorded d acts).1.buffer? name) ((recorded d acts).2 name)) ∧
      ∀ (hs : Heaps) (id : HeapId) (capacity align : Nat),
        hs.Asking id capacity align (hs.newBuffer id capacity align) :=
  ⟨(kept_recorded d acts).sound, Heaps.asking⟩

-- A terminator behind a shortened buffer is there when it grows again; a length of four is too much for it.
example : ((recorded {} [.copyOf "a" "" [1, 2, 3], .call "a" (.setLength 1), .call "a" (.store 1 [4]),
    .call "a" .terminate, .call "a" (.setLength 4), .call "a" (.setLength 3)]).1.buffer? "a").map
      Buffer.bytes = some [1, 0, 3] := by
  decide +kernel

end FilePipeline.Bench
