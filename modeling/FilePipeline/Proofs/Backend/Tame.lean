import FilePipeline.Proofs.Backend.Slow

/-! # Tame backends

A backend is tame if none of its calls crashes and none moves more than it was given (`Tame`). It
need not be honest: its calls may fail whenever they like, sizes may be any numbers, and files may
hold anything. Whole transfers over such a backend do not crash, and stay within their buffers
(`readFull_tame`, `writeFull_tame`). -/

namespace FilePipeline.Backend

variable {σ η : Type} {b : Backend σ η} {fine : σ → Prop} {s : σ} {h : η}

/-- Something was done that did not crash, and it has left one of the states `fine`. -/
structure Calm {ε α : Type} (fine : σ → Prop) (s : σ) (r : Attempt ε α) : Prop where
  fine : fine s
  calm : r.crashed = false

/-- A backend that is tame in the states `fine`, which it does not leave. -/
structure Tame (b : Backend σ η) (fine : σ → Prop) : Prop where
  translate : ∀ {s} path, fine s → (b.translate s path).crashed = false
  openFile : ∀ {s} path mode, fine s →
    Calm fine (b.openFile s path mode).state (b.openFile s path mode).result
  querySize : ∀ {s} h, fine s → Calm fine (b.querySize s h).state.1 (b.querySize s h).result
  read : ∀ {s} h dst, fine s → Calm fine (b.read s h dst).state.1 (b.read s h dst).result ∧
    ∀ n, (b.read s h dst).result = .ok n → n ≤ dst.size
  write : ∀ {s} h src, fine s → Calm fine (b.write s h src).state.1 (b.write s h src).result ∧
    ∀ n, (b.write s h src).result = .ok n → n ≤ src.length
  close : ∀ {s} h, fine s → Calm fine (b.close s h).state (b.close s h).result

/-- The invariant is that no more than `buf` was filled, so that the next call is given the rest of
    it. -/
theorem readFrom_tame (ht : b.Tame fine) (hs : fine s) {buf : Span} {filled : Nat}
    (hle : filled ≤ buf.size) (hmax : buf.size ≤ Size.max) :
    Calm fine (b.readFrom s h buf filled).state.1 (b.readFrom s h buf filled).result ∧
      ∀ n, (b.readFrom s h buf filled).result = .ok n → n ≤ buf.size := by
  induction s, h, buf, filled using readFrom_induction b with
  | full s h buf filled hge =>
    refine ⟨⟨hs, rfl⟩, fun n hn => ?_⟩
    cases hn
    exact hle
  | halts s h buf filled r hlt hr =>
    obtain ⟨hcalm, hfits⟩ := ht.read h (buf.drop filled) hs
    cases hr with
    | stopped _ hr =>
      subst hr
      refine ⟨⟨hcalm.fine, rfl⟩, fun n hn => ?_⟩
      cases hn
      exact hle
    | overflow n ha hadd =>
      have hn := hfits _ ha
      rw [Span.size_drop] at hn
      omega
    | failed f ha hi hr =>
      subst hr
      exact ⟨⟨hcalm.fine, ha ▸ hcalm.calm⟩, fun n hn => by cases hn⟩
  | continues s h buf filled m hlt hgo ih =>
    obtain ⟨hcalm, hfits⟩ := ht.read h (buf.drop filled) hs
    refine ih hcalm.fine ?_ hmax
    cases hgo with
    | moved n ha hadd hm =>
      have hn := hfits _ ha
      rw [Span.size_drop] at hn
      rw [Span.size_overlay]
      omega
    | again _ _ _ hm =>
      rw [hm]
      exact hle

theorem readFull_tame (ht : b.Tame fine) (hs : fine s) {buf : Span} (hmax : buf.size ≤ Size.max) :
    Calm fine (b.readFull s h buf).state.1 (b.readFull s h buf).result ∧
      ∀ n, (b.readFull s h buf).result = .ok n → n ≤ buf.size :=
  readFrom_tame ht hs (Nat.zero_le _) hmax

theorem writeFrom_tame (ht : b.Tame fine) (hs : fine s) {data : List UInt8} {written : Nat}
    (hle : written ≤ data.length) (hmax : data.length ≤ Size.max) :
    Calm fine (b.writeFrom s h data written).state.1 (b.writeFrom s h data written).result := by
  induction s, h, written using writeFrom_induction b data with
  | full => exact ⟨hs, rfl⟩
  | halts s h written r hlt hr =>
    obtain ⟨hcalm, hfits⟩ := ht.write h (data.drop written) hs
    cases hr with
    | stopped _ hr =>
      subst hr
      exact ⟨hcalm.fine, rfl⟩
    | overflow n ha hadd =>
      have hn := hfits _ ha
      rw [List.length_drop] at hn
      omega
    | failed f ha hi hr =>
      subst hr
      exact ⟨hcalm.fine, ha ▸ hcalm.calm⟩
  | continues s h written m hlt hgo ih =>
    obtain ⟨hcalm, hfits⟩ := ht.write h (data.drop written) hs
    refine ih hcalm.fine ?_
    cases hgo with
    | moved n ha hadd hm =>
      have hn := hfits _ ha
      rw [List.length_drop] at hn
      omega
    | again _ _ _ hm =>
      rw [hm]
      exact hle

theorem writeFull_tame (ht : b.Tame fine) (hs : fine s) {data : List UInt8}
    (hmax : data.length ≤ Size.max) :
    Calm fine (b.writeFull s h data).state.1 (b.writeFull s h data).result :=
  writeFrom_tame ht hs (Nat.zero_le _) hmax

/-! ### Slow stores are tame -/

namespace Scripted

variable {s : Store}

theorem calm_openFile (hs : s.Slow) (path : String) (mode : OpenMode) :
    Calm Store.Slow (openFile s path mode).state (openFile s path mode).result := by
  unfold openFile
  rw [(hs path).openFile]
  dsimp only
  cases mode with
  | sharedRead =>
    unfold opened
    dsimp only
    cases (s.files path).isSome <;> exact ⟨hs, rfl⟩
  | createTruncate => exact ⟨hs, rfl⟩

theorem calm_read (hs : s.Slow) (h : Handle) (dst : Span) :
    Calm Store.Slow (read s h dst).state.1 (read s h dst).result ∧
      ∀ n, (read s h dst).result = .ok n → n ≤ dst.size := by
  obtain ⟨hsound, -, hmove⟩ := nextRead_spec kind_slow hs h.path
  unfold read
  generalize s.nextRead h.path = x at hsound hmove
  obtain ⟨m, s'⟩ := x
  have some_read : ∀ n, Calm Store.Slow (readSome s' h dst n).state.1 (readSome s' h dst n).result ∧
      ∀ k, (readSome s' h dst n).result = .ok k → k ≤ dst.size := by
    refine fun n => ⟨⟨hsound, rfl⟩, fun k hk => ?_⟩
    cases hk
    rw [List.length_take]
    omega
  cases m with
  | none => exact some_read _
  | some m =>
    have hm := (hs h.path).reads m (hmove m rfl)
    cases m with
    | atMost n => exact some_read n
    | fail e => exact ⟨⟨hsound, rfl⟩, fun k hk => by cases hk⟩
    | lie n => exact hm.elim
    | crash => exact hm.elim

theorem calm_write (hs : s.Slow) (h : Handle) (src : List UInt8) :
    Calm Store.Slow (write s h src).state.1 (write s h src).result ∧
      ∀ n, (write s h src).result = .ok n → n ≤ src.length := by
  obtain ⟨hsound, -, hmove⟩ := nextWrite_spec kind_slow hs h.path
  unfold write
  generalize s.nextWrite h.path = x at hsound hmove
  obtain ⟨m, s'⟩ := x
  have some_written : ∀ n,
      Calm Store.Slow (writeSome s' h src n).state.1 (writeSome s' h src n).result ∧
        ∀ k, (writeSome s' h src n).result = .ok k → k ≤ src.length := by
    refine fun n => ⟨⟨hsound, rfl⟩, fun k hk => ?_⟩
    cases hk
    rw [List.length_take]
    omega
  cases m with
  | none => exact some_written _
  | some m =>
    have hm := (hs h.path).writes m (hmove m rfl)
    cases m with
    | atMost n => exact some_written n
    | fail e => exact ⟨⟨hsound, rfl⟩, fun k hk => by cases hk⟩
    | lie n => exact hm.elim
    | crash => exact hm.elim

theorem tame : backend.Tame Store.Slow where
  translate path _ := Attempt.crashed_ofExcept (nativePath path)
  openFile path mode hs := calm_openFile hs path mode
  querySize := by
    intro s h hs
    show Calm _ (querySize s h).state.1 (querySize s h).result
    unfold querySize
    split <;> exact ⟨hs, rfl⟩
  read h dst hs := calm_read hs h dst
  write h src hs := calm_write hs h src
  close := by
    intro s h hs
    show Calm _ (close s h).state (close s h).result
    unfold close
    split <;> exact ⟨hs, rfl⟩

end Scripted

end FilePipeline.Backend
