import FilePipeline.Proofs.Backend.Faulty

/-! # A slow store

Scripted files whose scripts hold nothing but short transfers and interruptions. Such a store is honest
(`honest`) and reliable on all of its files (`reliable`). -/

namespace FilePipeline.Backend.Scripted

/-- A transfer of some bytes, or an interruption. -/
def Move.Slow : Move → Prop
  | .atMost n => 0 < n
  | .fail e => e.isInterrupted = true
  | .lie _ | .crash => False

/-- Faults that only make a file slow. -/
structure Faults.Slow (f : Faults) : Prop where
  openFile : f.openFile = none
  size : f.size = none
  reads : ∀ m ∈ f.reads, m.Slow
  writes : ∀ m ∈ f.writes, m.Slow

def Store.Slow (s : Store) : Prop := ∀ path, (s.faults path).Slow

/-- Slow stores, with paths for files. -/
def slowView : View Store Handle String where
  sound s := s.Slow
  file path := path
  contents s := s.files
  stands x f i := x.1.Slow ∧ x.2 = ⟨f, i⟩ ∧ ∃ data, x.1.files f = some data ∧ i ≤ data.length

variable {s : Store}

theorem slow_initial : Store.Slow {} := fun _ =>
  ⟨rfl, rfl, fun _ h => absurd h List.not_mem_nil, fun _ h => absurd h List.not_mem_nil⟩

theorem slow_put (h : s.Slow) (path : String) (bytes : List UInt8) : (s.put path bytes).Slow := h

theorem kind_slow : Kind Faults.Slow where
  truthful h := by
    refine ⟨fun n hn => ?_, fun m hm => ⟨?_, ?_⟩, fun m hm => ?_⟩
    · rw [h.size] at hn
      cases hn
    · rintro rfl
      exact absurd (h.reads _ hm) (Nat.lt_irrefl 0)
    · rintro n rfl
      exact h.reads _ hm
    · rintro n rfl
      exact h.writes _ hm
  read h hr := ⟨h.openFile, h.size,
    fun m hm => h.reads m (by rw [hr]; exact List.mem_cons_of_mem _ hm), h.writes⟩
  write h hw := ⟨h.openFile, h.size, h.reads,
    fun m hm => h.writes m (by rw [hw]; exact List.mem_cons_of_mem _ hm)⟩

theorem honest : backend.Honest slowView := honest_viewOf kind_slow

/-! ### Each call is served in the end -/

/-- A read that fails was interrupted. -/
theorem interrupted_read (h : s.Slow) (f : String) (i : Nat) (dst : Span) {e : Fault IoError}
    (he : (read s ⟨f, i⟩ dst).result = .error e) :
    interrupted (read s ⟨f, i⟩ dst).result = true := by
  have hmove := (nextRead_spec kind_slow h f).2.2
  unfold read at he ⊢
  dsimp only at he ⊢
  generalize s.nextRead f = x at hmove he
  obtain ⟨m, s'⟩ := x
  cases m with
  | none => cases he
  | some m =>
    have hm := (h f).reads m (hmove m rfl)
    cases m with
    | atMost n => cases he
    | fail e => exact hm
    | lie n => exact hm.elim
    | crash => exact hm.elim

/-- What is not empty is not written by taking nothing of it, and a write that fails was
    interrupted. -/
theorem served_write (h : s.Slow) (f : String) (i : Nat) {src : List UInt8} (hne : src ≠ []) :
    (write s ⟨f, i⟩ src).result ≠ .ok 0 ∧ ∀ e, (write s ⟨f, i⟩ src).result = .error e →
      interrupted (write s ⟨f, i⟩ src).result = true := by
  have hmove := (nextWrite_spec kind_slow h f).2.2
  unfold write
  dsimp only
  generalize s.nextWrite f = x at hmove
  obtain ⟨m, s'⟩ := x
  have some_taken : ∀ n, 0 < n → (writeSome s' ⟨f, i⟩ src n).result ≠ .ok 0 := by
    intro n hn hz
    have hlen : (src.take n).length = 0 := Except.ok.inj hz
    rw [List.length_take] at hlen
    have := List.length_pos_iff.mpr hne
    omega
  cases m with
  | none => exact ⟨some_taken _ (List.length_pos_iff.mpr hne), fun e he => by cases he⟩
  | some m =>
    have hm := (h f).writes m (hmove m rfl)
    cases m with
    | atMost n => exact ⟨some_taken n hm, fun e he => by cases he⟩
    | fail e => exact ⟨(fun hz => by cases hz), fun _ _ => hm⟩
    | lie n => exact hm.elim
    | crash => exact hm.elim

theorem reliable (f : String) : backend.Reliable slowView f where
  takes := fun _ _ ⟨native, h⟩ => ⟨native, Attempt.ofExcept_eq_ok.mpr h⟩
  openRead := by
    rintro s path native data hs ht rfl hd
    obtain rfl := translate_eq ht
    have hd : s.files native = some data := hd
    show ∃ h, (openFile s native .sharedRead).result = .ok h
    unfold openFile opened
    rw [(hs native).openFile]
    dsimp only
    rw [hd, if_pos Option.isSome_some]
    exact ⟨_, rfl⟩
  openWrite := by
    rintro s path native hs ht rfl
    obtain rfl := translate_eq ht
    show ∃ h, (openFile s native .createTruncate).result = .ok h
    unfold openFile
    rw [(hs native).openFile]
    exact ⟨_, rfl⟩
  size := by
    rintro s h i ⟨hs, rfl, data, hd, -⟩
    show ∃ n, (querySize s ⟨f, i⟩).result = .ok n
    unfold querySize
    rw [(hs f).size]
    exact ⟨_, rfl⟩
  read := by
    rintro s h i e dst ⟨hs, rfl, -⟩ he
    exact interrupted_read hs f i dst he
  write := by
    rintro s h i src ⟨hs, rfl, -⟩ hne
    exact served_write hs f i hne
  close := by
    rintro s h i -
    show (close s h).result.crashed = false
    unfold close
    split <;> rfl

end FilePipeline.Backend.Scripted
