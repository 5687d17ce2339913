import FilePipeline.Backend.Scripted
import FilePipeline.Proofs.Backend.Honest

/-! # Scripted files that tell the truth

The scripts of a scripted store may make calls fail, be interrupted, crash and move little. As long as
they do not report what did not happen (`Faults.Truthful`), the store is honest. That is shown for any
class of such faults that scripts do not leave as they go on (`Kind`), since some classes are honest and
more than that. -/

namespace FilePipeline.Backend.Scripted

/-- Faults of a file that is told about truthfully. -/
structure Faults.Truthful (f : Faults) : Prop where
  size : ∀ n, f.size ≠ some (.ok n)
  reads : ∀ m ∈ f.reads, m ≠ .atMost 0 ∧ ∀ n, m ≠ .lie n
  writes : ∀ m ∈ f.writes, ∀ n, m ≠ .lie n

/-- A class of truthful faults that is closed under taking calls from the scripts. -/
structure Kind (P : Faults → Prop) : Prop where
  truthful : ∀ {f}, P f → f.Truthful
  read : ∀ {f m rest}, P f → f.reads = m :: rest → P { f with reads := rest }
  write : ∀ {f m rest}, P f → f.writes = m :: rest → P { f with writes := rest }

theorem kind_truthful : Kind Faults.Truthful where
  truthful h := h
  read h hr :=
    ⟨h.size, fun m hm => h.reads m (by rw [hr]; exact List.mem_cons_of_mem _ hm), h.writes⟩
  write h hw :=
    ⟨h.size, h.reads, fun m hm => h.writes m (by rw [hw]; exact List.mem_cons_of_mem _ hm)⟩

/-- The stores whose faults are all of one class, with paths for files. -/
def viewOf (P : Faults → Prop) : View Store Handle String where
  sound s := ∀ path, P (s.faults path)
  file path := path
  contents s := s.files
  stands x f i := (∀ path, P (x.1.faults path)) ∧ x.2 = ⟨f, i⟩ ∧
    ∃ data, x.1.files f = some data ∧ i ≤ data.length

theorem nativePath_eq {path native : String} (h : nativePath path = .ok native) :
    native = path := by
  unfold nativePath at h
  split at h
  · cases h
  · split at h
    · cases h
    · exact (Except.ok.inj h).symm

theorem translate_eq {s : Store} {path native : String} (h : backend.translate s path = .ok native) :
    native = path :=
  nativePath_eq (Attempt.ofExcept_eq_ok.mp h)

variable {P : Faults → Prop} {s s₀ : Store} {f path : String} {i n : Nat} {data : List UInt8}

theorem setFaults_faults (h : ∀ path, P (s.faults path)) {g : Faults} (hg : P g) :
    ∀ p, P ((s.setFaults path g).faults p) := by
  intro p
  show P (if p = path then g else s.faults p)
  split
  · exact hg
  · exact h p

theorem contents_of_files (h : s.files path = some data) : s.contents path = data := by
  unfold Store.contents
  rw [h]
  rfl

/-! ### Reads -/

theorem reads_readSome (dst : Span) (h : ∀ path, P (s.faults path)) (hs : s.files = s₀.files)
    (hd : s.files f = some data) (hi : i ≤ data.length) (hn : 0 < n ∨ dst.size = 0) :
    (viewOf P).Reads f i data dst s₀ (readSome s ⟨f, i⟩ dst n) := by
  have hlen : ((data.drop i).take (min n dst.size)).length =
      min (min n dst.size) (data.length - i) := by
    rw [List.length_take, List.length_drop]
  unfold readSome
  dsimp only
  rw [contents_of_files hd]
  refine ⟨hs, fun m hm => ?_, fun hz => ?_, fun e he => by cases he⟩
  · obtain rfl : ((data.drop i).take (min n dst.size)).length = m := Except.ok.inj hm
    refine ⟨⟨h, rfl, data, hd, by omega⟩, by omega, by omega, ?_⟩
    rw [← List.prefix_iff_eq_take.mp (List.take_prefix _ _)]
    exact (Span.starts_ofList _).front (by rw [Span.size_ofList]; omega)
  · have hz' := Except.ok.inj hz
    omega

section

variable (hP : Kind P) (h : ∀ path, P (s.faults path))

include hP h

theorem nextRead_spec (path : String) :
    (∀ p, P ((s.nextRead path).2.faults p)) ∧ (s.nextRead path).2.files = s.files ∧
      ∀ m, (s.nextRead path).1 = some m → m ∈ (s.faults path).reads := by
  unfold Store.nextRead
  dsimp only
  split
  · exact ⟨h, rfl, fun m hm => by cases hm⟩
  · next m rest hr =>
    refine ⟨setFaults_faults h (hP.read (h path) hr), rfl, fun m' hm => ?_⟩
    cases hm
    rw [hr]
    exact List.mem_cons_self

theorem reads_read (dst : Span) (hd : s.files f = some data) (hi : i ≤ data.length) :
    (viewOf P).Reads f i data dst s (read s ⟨f, i⟩ dst) := by
  obtain ⟨hsound, hfiles, hmove⟩ := nextRead_spec hP h f
  have htrue := (hP.truthful (h f)).reads
  unfold read
  dsimp only
  generalize s.nextRead f = x at hsound hfiles hmove
  obtain ⟨m, s'⟩ := x
  have hd' : s'.files f = some data := by
    rw [← hd, ← hfiles]
  cases m with
  | none => exact reads_readSome dst hsound hfiles hd' hi (by omega)
  | some m =>
    obtain ⟨hzero, hlie⟩ := htrue m (hmove m rfl)
    cases m with
    | atMost n =>
      refine reads_readSome dst hsound hfiles hd' hi (Or.inl (Nat.pos_of_ne_zero ?_))
      rintro rfl
      exact hzero rfl
    | fail e | crash =>
      exact ⟨hfiles, (fun n hn => by cases hn), (fun hz => by cases hz),
        fun e he => ⟨hsound, rfl, data, hd', hi⟩⟩
    | lie n => exact absurd rfl (hlie n)

end

/-! ### Writes -/

theorem writes_writeSome (src : List UInt8) (h : ∀ path, P (s.faults path))
    (hs : s.files = s₀.files) (hd : s.files f = some data) (hi : i ≤ data.length) :
    (viewOf P).Writes f i data src s₀ (writeSome s ⟨f, i⟩ src n) := by
  unfold writeSome
  dsimp only
  rw [contents_of_files hd]
  have hlen : (src.take n).length = min n src.length := List.length_take
  have hput : ((s.put f (data.take i ++ src.take n ++ data.drop (i + (src.take n).length))).files
      f) = some (data.take i ++ src.take n ++ data.drop (i + (src.take n).length)) := if_pos rfl
  refine ⟨fun g hg => ?_, fun m hm => ?_, fun e he => by cases he⟩
  · show (if g = f then _ else s.files g) = s₀.files g
    rw [if_neg hg, hs]
  · obtain rfl : (src.take n).length = m := Except.ok.inj hm
    refine ⟨⟨h, rfl, _, hput, ?_⟩, by omega, ?_⟩
    · simp only [List.length_append, List.length_take, List.length_drop]
      omega
    · rw [← List.prefix_iff_eq_take.mp (List.take_prefix n src)]
      exact hput

section

variable (hP : Kind P) (h : ∀ path, P (s.faults path))

include hP h

theorem nextWrite_spec (path : String) :
    (∀ p, P ((s.nextWrite path).2.faults p)) ∧ (s.nextWrite path).2.files = s.files ∧
      ∀ m, (s.nextWrite path).1 = some m → m ∈ (s.faults path).writes := by
  unfold Store.nextWrite
  dsimp only
  split
  · exact ⟨h, rfl, fun m hm => by cases hm⟩
  · next m rest hw =>
    refine ⟨setFaults_faults h (hP.write (h path) hw), rfl, fun m' hm => ?_⟩
    cases hm
    rw [hw]
    exact List.mem_cons_self

theorem writes_write (src : List UInt8) (hd : s.files f = some data) (hi : i ≤ data.length) :
    (viewOf P).Writes f i data src s (write s ⟨f, i⟩ src) := by
  obtain ⟨hsound, hfiles, hmove⟩ := nextWrite_spec hP h f
  have htrue := (hP.truthful (h f)).writes
  unfold write
  dsimp only
  generalize s.nextWrite f = x at hsound hfiles hmove
  obtain ⟨m, s'⟩ := x
  have hd' : s'.files f = some data := by
    rw [← hd, ← hfiles]
  cases m with
  | none => exact writes_writeSome src hsound hfiles hd' hi
  | some m =>
    have hlie := htrue m (hmove m rfl)
    cases m with
    | atMost n => exact writes_writeSome src hsound hfiles hd' hi
    | fail e | crash =>
      exact ⟨fun g _ => congrFun hfiles g, (fun n hn => by cases hn),
        fun e he => ⟨⟨hsound, rfl, data, hd', hi⟩, hd'⟩⟩
    | lie n => exact absurd rfl (hlie n)

end

/-! ### The store -/

theorem opensToRead_openFile (h : ∀ path, P (s.faults path)) :
    (viewOf P).OpensToRead path s (openFile s path .sharedRead) := by
  unfold openFile
  split
  · exact ⟨h, rfl, fun _ hh => by cases hh⟩
  · dsimp only
    unfold opened
    dsimp only
    cases hd : s.files path with
    | none =>
      rw [if_neg (by simp)]
      dsimp only
      split <;> exact ⟨h, rfl, fun _ hh => by cases hh⟩
    | some data =>
      rw [if_pos Option.isSome_some]
      dsimp only
      split
      · exact ⟨h, rfl, fun _ hh => by cases hh⟩
      · refine ⟨h, rfl, fun x hx => ?_⟩
        cases hx
        exact ⟨h, rfl, data, hd, Nat.zero_le _⟩

theorem opensToWrite_openFile (h : ∀ path, P (s.faults path)) :
    (viewOf P).OpensToWrite path s (openFile s path .createTruncate) := by
  have hput : (s.put path []).files path = some [] := if_pos rfl
  unfold openFile
  split
  · exact ⟨h, fun _ _ => rfl, (fun _ hh => by cases hh), Or.inl rfl⟩
  · dsimp only
    unfold opened
    dsimp only
    split
    · exact ⟨h, fun g hg => if_neg hg, (fun _ hh => by cases hh), Or.inr hput⟩
    · refine ⟨h, fun g hg => if_neg hg, fun x hx => ?_, Or.inr hput⟩
      cases hx
      exact ⟨⟨h, rfl, [], hput, Nat.zero_le _⟩, hput⟩

theorem sizes_querySize (hP : Kind P) (h : ∀ path, P (s.faults path)) (hd : s.files f = some data)
    (hi : i ≤ data.length) : (viewOf P).Sizes f i data s (querySize s ⟨f, i⟩) := by
  have htrue := (hP.truthful (h f)).size
  unfold querySize
  dsimp only
  split
  · next n hn =>
    refine ⟨⟨h, rfl, data, hd, hi⟩, rfl, fun m hm => ?_⟩
    obtain rfl : n = m := Except.ok.inj hm
    cases hsize : (s.faults f).size with
    | none =>
      rw [hsize, Option.getD_none, contents_of_files hd] at hn
      exact (Except.ok.inj hn).symm
    | some r =>
      rw [hsize, Option.getD_some] at hn
      exact absurd (hn ▸ hsize) (htrue n)
  · exact ⟨⟨h, rfl, data, hd, hi⟩, rfl, fun m hm => by cases hm⟩

/-- A store that tells the truth is honest. -/
theorem honest_viewOf (hP : Kind P) : backend.Honest (viewOf P) where
  openRead := by
    intro s path native hs ht
    obtain rfl := translate_eq ht
    exact opensToRead_openFile hs
  openWrite := by
    intro s path native hs ht
    obtain rfl := translate_eq ht
    exact opensToWrite_openFile hs
  standing := by
    rintro x f i ⟨hs, -, data, hd, -⟩
    exact ⟨hs, data, hd⟩
  size := by
    rintro s h f i data ⟨hs, rfl, data', hd', hi⟩ hd
    obtain rfl : data = data' := Option.some.inj (hd.symm.trans hd')
    exact sizes_querySize hP hs hd hi
  read := by
    rintro s h f i data dst ⟨hs, rfl, data', hd', hi⟩ hd
    obtain rfl : data = data' := Option.some.inj (hd.symm.trans hd')
    exact reads_read hP hs dst hd hi
  write := by
    rintro s h f i data src ⟨hs, rfl, data', hd', hi⟩ hd
    obtain rfl : data = data' := Option.some.inj (hd.symm.trans hd')
    exact writes_write hP hs src hd hi
  close := by
    rintro s h f i ⟨hs, -⟩
    show (∀ path, P ((close s h).state.faults path)) ∧ (close s h).state.files = s.files
    unfold close
    split <;> exact ⟨hs, rfl⟩

end FilePipeline.Backend.Scripted
