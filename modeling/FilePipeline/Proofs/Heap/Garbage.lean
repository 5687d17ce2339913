import FilePipeline.Proofs.Heap.Ledger
import FilePipeline.Proofs.Heap.Shapes

/-! # Heaps without their garbage

What a source leaves in a fresh block is garbage. `Heaps.clean` is what heaps would be if all of it were
zeros, so heaps that are the same when clean differ in their garbage alone. No heap goes by garbage, and
nobody else gets to see any: a buffer is zeroed before it is handed out. So whatever is done with heaps
commutes with `clean`, and what is allocated from heaps that differ in their garbage alone are buffers
with the same bytes at the same place (`newBuffer_of_clean`).

Whatever is behind the end of a span is not part of it, and no comparison of spans should depend on it;
`Span.clean` puts zeros there. -/

namespace FilePipeline

theorem cases_of_map_eq {ε α β : Type} {f : α → β} {r r' : Except ε α} (h : r.map f = r'.map f) :
    (∃ e, r = .error e ∧ r' = .error e) ∨ ∃ a a', r = .ok a ∧ r' = .ok a' ∧ f a = f a' := by
  cases r with
  | error e =>
    cases r' with
    | error e' => exact Or.inl ⟨e, rfl, congrArg Except.error (Except.error.inj h).symm⟩
    | ok a' => cases h
  | ok a =>
    cases r' with
    | error e' => cases h
    | ok a' => exact Or.inr ⟨a, a', rfl, rfl, Except.ok.inj h⟩

/-! ### Spans and buffers -/

namespace Span

variable {s t : Span}

def clean (s : Span) : Span := ⟨s.size, fun i => if i < s.size then s.byte i else 0⟩

theorem agrees_clean (s : Span) : s.clean.Agrees s := ⟨rfl, fun _ hi => if_pos hi⟩

theorem clean_eq_clean : s.clean = t.clean ↔ s.Agrees t := by
  constructor
  · intro h
    exact (s.agrees_clean.symm.trans (h ▸ .refl _)).trans t.agrees_clean
  · intro h
    have hbyte : s.clean.byte = t.clean.byte := funext fun i => by
      show (if i < s.size then s.byte i else 0) = if i < t.size then t.byte i else 0
      rw [← h.size]
      split
      · next hi => exact h.byte i hi
      · rfl
    unfold clean at hbyte ⊢
    exact congr (congrArg Span.mk h.size) hbyte

theorem clean_set (s : Span) (n : Nat) : (s.set n 0).clean = s.clean.set n 0 := by
  refine congrArg (Span.mk s.size) (funext fun i => ?_)
  show (if i < s.size then if i = n then 0 else s.byte i else 0) =
    if i = n then 0 else if i < s.size then s.byte i else 0
  split <;> split <;> rfl

end Span

namespace Buffer

variable {b b' : Buffer}

def clean (b : Buffer) : Buffer := { b with storage := b.storage.clean }

theorem clean_eq_clean : b.clean = b'.clean ↔ b.lease = b'.lease ∧ b.Like b' := by
  obtain ⟨heap, address, layout, storage, length⟩ := b
  obtain ⟨heap', address', layout', storage', length'⟩ := b'
  simp only [clean, lease, Buffer.mk.injEq, Lease.mk.injEq, Span.clean_eq_clean]
  constructor
  · rintro ⟨hh, ha, hl, hs, hn⟩
    exact ⟨⟨hh, ha, hl⟩, hs, hn⟩
  · rintro ⟨⟨hh, ha, hl⟩, hs, hn⟩
    exact ⟨hh, ha, hl, hs, hn⟩

theorem like_clean (b : Buffer) : b.clean.Like b := ⟨b.storage.agrees_clean, rfl⟩

theorem bytes_clean (b : Buffer) : b.clean.bytes = b.bytes := b.like_clean.bytes

theorem terminated?_clean (b : Buffer) : b.clean.terminated? = b.terminated? := b.like_clean.terminated?

theorem setLength_clean (b : Buffer) (n : Nat) : b.clean.setLength n = (b.setLength n).map clean := by
  unfold setLength
  show (if n ≤ b.capacity then _ else _) = _
  split <;> rfl

theorem terminate_clean (b : Buffer) : b.clean.terminate.2 = b.terminate.2.clean := by
  unfold terminate
  show (if b.length < b.capacity then _ else _ : Bool × Buffer).2 = _
  split
  · exact congrArg (fun s => { b with storage := s }) (b.storage.clean_set b.length).symm
  · rfl

theorem write_of_clean (h : b.clean = b'.clean) {t t' : Span} (ht : t.Agrees t')
    (hsize : t.size = b.storage.size) : (b.write t.byte).clean = (b'.write t'.byte).clean := by
  obtain ⟨hlease, hlike⟩ := clean_eq_clean.mp h
  exact clean_eq_clean.mpr ⟨hlease, hlike.write ht hsize⟩

theorem setLength_of_clean (h : b.clean = b'.clean) (n : Nat) :
    (b.setLength n).map clean = (b'.setLength n).map clean := by
  rw [← setLength_clean, ← setLength_clean, h]

theorem terminateIf_of_clean (h : b.clean = b'.clean) (terminated : Bool) :
    (if terminated then b.terminate.2 else b).clean = (if terminated then b'.terminate.2 else b').clean := by
  cases terminated with
  | false => exact h
  | true =>
    show b.terminate.2.clean = b'.terminate.2.clean
    rw [← terminate_clean, ← terminate_clean, h]

end Buffer

/-! ### Heaps -/

def Source.clean (s : Source) : Source := { s with garbage := fun _ _ => 0 }

def Heap.clean (h : Heap) : Heap :=
  match h.kind with
  | .source s history => { h with kind := .source s.clean history }
  | .tracking .. => h

namespace Heaps

def clean (hs : Heaps) : Heaps := { hs with heaps := hs.heaps.map Heap.clean }

variable {hs hs' : Heaps}

theorem get?_clean (hs : Heaps) (id : HeapId) : hs.clean.get? id = (hs.get? id).map Heap.clean :=
  List.getElem?_map

theorem modify_clean {id : HeapId} {f g : Heap → Heap}
    (h : ∀ x, hs.get? id = some x → g x.clean = (f x).clean) :
    hs.clean.modify id g = (hs.modify id f).clean := by
  refine congrArg (Heaps.mk · hs.nextAddress) (List.ext_getElem? fun t => ?_)
  show (hs.clean.modify id g).get? t = (hs.modify id f).clean.get? t
  rw [get?_clean, get?_modify, get?_modify, get?_clean, Option.map_map, Option.map_map]
  cases ht : hs.get? t with
  | none => rfl
  | some x =>
    refine congrArg some ?_
    show (if t = id then g x.clean else x.clean) = (if t = id then f x else x).clean
    split
    · next he => exact h x (he ▸ ht)
    · rfl

theorem name_clean (hs : Heaps) (id : HeapId) : hs.clean.name id = hs.name id := by
  unfold name
  rw [get?_clean]
  rcases hs.get? id with _ | ⟨name, kind, holders⟩
  · rfl
  · cases kind <;> rfl

theorem inner?_clean (hs : Heaps) (id : HeapId) : hs.clean.inner? id = hs.inner? id := by
  rw [inner?_eq, inner?_eq, get?_clean]
  rcases hs.get? id with _ | ⟨name, kind, holders⟩
  · rfl
  · cases kind <;> rfl

theorem layers_clean (hs : Heaps) (id : HeapId) : hs.clean.layers id = hs.layers id :=
  layers_congr hs.inner?_clean id

theorem modifyBooks_clean (hs : Heaps) (id : HeapId) (f : Bool → Books → Books) :
    hs.clean.modifyBooks id f = (hs.modifyBooks id f).clean := by
  refine modify_clean fun x _ => ?_
  obtain ⟨name, kind, holders⟩ := x
  cases kind <;> rfl

theorem retain_clean (hs : Heaps) (id : HeapId) : hs.clean.retain id = (hs.retain id).clean := by
  refine modify_clean fun x _ => ?_
  obtain ⟨name, kind, holders⟩ := x
  cases kind <;> rfl

/-- Nothing that is decided on a request goes by garbage. -/
theorem serve_clean (hs : Heaps) (id : HeapId) (l : Layout) (zeroed : Bool) :
    (hs.clean.serve id l zeroed).1.map Block.address = (hs.serve id l zeroed).1.map Block.address ∧
      (hs.clean.serve id l zeroed).2 = (hs.serve id l zeroed).2.clean := by
  have hname := hs.name_clean id
  unfold serve
  rw [get?_clean]
  rcases hg : hs.get? id with _ | ⟨name, kind, holders⟩
  · exact ⟨congrArg (fun n => Except.error (l.refusedBy n)) hname, rfl⟩
  · cases kind with
    | tracking => exact ⟨congrArg (fun n => Except.error (l.refusedBy n)) hname, rfl⟩
    | source s history =>
      have note : ∀ (served : Bool) (next : Nat), ({ hs.clean with nextAddress := next } : Heaps).modify id
          (fun h => { h with kind := .source s.clean (⟨l, served⟩ :: history) }) =
            (({ hs with nextAddress := next } : Heaps).modify id
              fun h => { h with kind := .source s (⟨l, served⟩ :: history) }).clean := by
        intro served next
        have hnext : ({ hs.clean with nextAddress := next } : Heaps) =
            ({ hs with nextAddress := next } : Heaps).clean := rfl
        rw [hnext]
        refine modify_clean fun x hx => ?_
        obtain rfl : _ = x := Option.some.inj (hg.symm.trans hx)
        rfl
      have hdecide : s.clean.decide history l = s.decide history l := rfl
      simp only [Option.map_some, Heap.clean]
      rw [hdecide]
      cases s.decide history l with
      | error e => exact ⟨rfl, note false hs.nextAddress⟩
      | ok => exact ⟨rfl, note true (hs.nextAddress + 1)⟩

theorem recordAll_clean (hs : Heaps) (ts : List HeapId) (address : Nat) (l : Layout) :
    hs.clean.recordAll ts address l = (hs.recordAll ts address l).clean := by
  induction ts with
  | nil => rfl
  | cons t ts ih =>
    show (hs.clean.recordAll ts address l).record t address l = _
    rw [ih]
    exact modifyBooks_clean _ t _

theorem allocate_clean (hs : Heaps) (id : HeapId) (l : Layout) (zeroed : Bool) :
    (hs.clean.allocate id l zeroed).1.map Block.address = (hs.allocate id l zeroed).1.map Block.address ∧
      (hs.clean.allocate id l zeroed).2 = (hs.allocate id l zeroed).2.clean := by
  obtain ⟨haddress, hheaps⟩ := hs.serve_clean (hs.layers id).2 l zeroed
  unfold allocate
  dsimp only
  rw [layers_clean]
  generalize hs.clean.serve _ l zeroed = r' at haddress hheaps ⊢
  generalize hs.serve _ l zeroed = r at haddress hheaps ⊢
  obtain ⟨a', hs₁'⟩ := r'
  obtain ⟨a, hs₁⟩ := r
  obtain rfl : hs₁' = hs₁.clean := hheaps
  rcases cases_of_map_eq haddress with ⟨e, rfl, rfl⟩ | ⟨b', b, rfl, rfl, hb⟩
  · exact ⟨rfl, rfl⟩
  · refine ⟨haddress, ?_⟩
    dsimp only
    rw [hb]
    exact recordAll_clean hs₁ _ b.address l

/-- What is allocated does not depend on garbage, and neither does what is left of the heaps. -/
theorem newBuffer_clean (hs : Heaps) (id : HeapId) (n align : Nat) :
    (hs.clean.newBuffer id n align).1.map Buffer.clean = (hs.newBuffer id n align).1.map Buffer.clean ∧
      (hs.clean.newBuffer id n align).2 = (hs.newBuffer id n align).2.clean := by
  -- both buffers are all zeros
  have zeros : ∀ {b b'}, (hs.clean.newBuffer id n align).1 = .ok b' →
      (hs.newBuffer id n align).1 = .ok b → b'.storage.Agrees b.storage := fun hb' hb =>
    (newBuffer_ok (Prod.ext hb' rfl)).1.trans (newBuffer_ok (Prod.ext hb rfl)).1.symm
  obtain ⟨haddress, hheaps⟩ := hs.allocate_clean id (Buffer.layoutOf n align) true
  unfold newBuffer at zeros ⊢
  dsimp only at zeros ⊢
  split
  · next hv =>
    simp only [if_pos hv] at zeros
    generalize hs.clean.allocate id _ true = r' at haddress hheaps zeros ⊢
    generalize hs.allocate id _ true = r at haddress hheaps zeros ⊢
    obtain ⟨a', hs₁'⟩ := r'
    obtain ⟨a, hs₁⟩ := r
    obtain rfl : hs₁' = hs₁.clean := hheaps
    rcases cases_of_map_eq haddress with ⟨e, rfl, rfl⟩ | ⟨b', b, rfl, rfl, hb⟩
    · exact ⟨rfl, rfl⟩
    · refine ⟨congrArg Except.ok (Buffer.clean_eq_clean.mpr ⟨?_, zeros rfl rfl, rfl⟩), retain_clean hs₁ id⟩
      exact congrArg (Lease.mk id · (Buffer.layoutOf n align)) hb
  · rw [name_clean]
    exact ⟨rfl, rfl⟩

/-- Heaps that differ in their garbage alone refuse the same buffers, and allocate buffers that nobody
can tell apart. -/
theorem newBuffer_of_clean (h : hs.clean = hs'.clean) (id : HeapId) (n align : Nat) :
    (hs.newBuffer id n align).1.map Buffer.clean = (hs'.newBuffer id n align).1.map Buffer.clean ∧
      (hs.newBuffer id n align).2.clean = (hs'.newBuffer id n align).2.clean := by
  obtain ⟨hb, hheaps⟩ := hs.newBuffer_clean id n align
  obtain ⟨hb', hheaps'⟩ := hs'.newBuffer_clean id n align
  rw [← hb, ← hb', ← hheaps, ← hheaps', h]
  exact ⟨rfl, rfl⟩

theorem free_clean (hs : Heaps) (id : HeapId) (address : Nat) :
    (hs.clean.free id address).1 = (hs.free id address).1.clean := by
  rw [free_eq, free_eq, trackers_congr hs.inner?_clean id]
  suffices h : ∀ (ts : List HeapId) (r r' : Heaps × List Notice), r'.1 = r.1.clean →
      (unrecordAll r' ts address).1 = (unrecordAll r ts address).1.clean from h _ _ _ rfl
  intro ts
  induction ts with
  | nil => exact fun _ _ h => h
  | cons t ts ih =>
    refine fun r r' h => ih _ _ ?_
    dsimp only
    rw [unrecord_fst, unrecord_fst, h]
    exact modifyBooks_clean _ t _

/-- One hold of a heap fewer. -/
def letGo (hs : Heaps) (id : HeapId) : Heaps := hs.modify id fun h => { h with holders := h.holders - 1 }

theorem letGo_clean (hs : Heaps) (id : HeapId) : hs.clean.letGo id = (hs.letGo id).clean := by
  refine modify_clean fun x _ => ?_
  obtain ⟨name, kind, holders⟩ := x
  cases kind <;> rfl

/-- The last hold of a tracking heap takes one of the heap inside with it. -/
theorem release_fst (hs : Heaps) (id : HeapId) : (hs.release id).1 =
    (hs.get? id).elim hs fun h => if h.holders = 1 then
      ((hs.letGo id).inner? id).elim (hs.letGo id) fun inner => ((hs.letGo id).release inner).1
      else hs.letGo id := by
  conv => lhs; unfold release
  split
  · next hg => rw [hg]; rfl
  · next h hg =>
    rw [hg]
    dsimp only [Option.elim_some]
    split
    · split
      · next hi =>
        have hi : (hs.letGo id).inner? id = none := hi
        rw [hi]
        rfl
      · next inner hi =>
        have hi : (hs.letGo id).inner? id = some inner := hi
        rw [hi]
        rfl
    · rfl

theorem release_clean (hs : Heaps) (id : HeapId) : (hs.clean.release id).1 = (hs.release id).1.clean := by
  induction id using Nat.strongRecOn generalizing hs with
  | ind id ih =>
    rw [release_fst, release_fst, get?_clean, letGo_clean, inner?_clean]
    rcases hs.get? id with _ | ⟨name, kind, holders⟩
    · rfl
    · have hholders : (Heap.clean ⟨name, kind, holders⟩).holders = holders := by cases kind <;> rfl
      simp only [Option.map_some, Option.elim_some, hholders]
      split
      · cases hi : (hs.letGo id).inner? id with
        | none => rfl
        | some inner => exact ih inner (inner?_lt hi) (hs.letGo id)
      · rfl

theorem dropBuffer_clean (hs : Heaps) (b : Buffer) :
    (hs.clean.dropBuffer b.clean).1 = (hs.dropBuffer b).1.clean := by
  unfold dropBuffer
  dsimp only
  rw [free_clean]
  exact release_clean _ b.heap

end Heaps

end FilePipeline
