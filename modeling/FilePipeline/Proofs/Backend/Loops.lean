import FilePipeline.Backend.Transfer

/-! # The calls of a transfer loop

After each of its calls a transfer loop either continues (`Continues`) or halts (`Halts`), and which of the
two depends on the answer of the call alone. All that is known about whole transfers is proved along these
calls: `readFrom_induction` and `writeFrom_induction` have a case for a loop that has nothing left to move,
one for the call it halts after, and one for a call it continues after. -/

namespace FilePipeline

theorem Size.le_of_add_eq_ok {i j n : Nat} (h : Size.add i j = .ok n) : i + j ≤ Size.max := by
  unfold Size.add at h
  split at h
  · assumption
  · cases h

theorem Size.lt_of_add_eq_error {i j : Nat} {c : Crash} (h : Size.add i j = .error c) :
    Size.max < i + j ∧ c = .addOverflow := by
  unfold Size.add at h
  split at h
  · cases h
  · cases h
    exact ⟨by omega, rfl⟩

namespace Backend

variable {σ η : Type} {b : Backend σ η} {s : σ} {h : η} {buf : Span} {data : List UInt8}
  {nothing a r r' : Attempt IoError Nat} {filled written k m m' : Nat}

/-- A loop that has moved `k` bytes continues after the answer `a`, and has moved `m` bytes then. -/
inductive Continues (k : Nat) (a : Attempt IoError Nat) (m : Nat) : Prop
  | moved (n : Nat) (ha : a = .ok (n + 1)) (hadd : k + (n + 1) ≤ Size.max) (hm : m = k + (n + 1))
  | again (f : Fault IoError) (ha : a = .error f) (hi : interrupted a = true) (hm : m = k)

/-- A loop that has moved `k` bytes halts after the answer `a`, and answers with `r`. It answers with
    `nothing` if the call has moved no bytes. -/
inductive Halts (nothing : Attempt IoError Nat) (k : Nat) (a r : Attempt IoError Nat) : Prop
  | stopped (ha : a = .ok 0) (hr : r = nothing)
  | overflow (n : Nat) (ha : a = .ok (n + 1)) (hadd : Size.max < k + (n + 1))
      (hr : r = Attempt.crash .addOverflow)
  | failed (f : Fault IoError) (ha : a = .error f) (hi : interrupted a = false) (hr : r = .error f)

theorem Halts.interrupted_eq_false (hr : Halts nothing k a r) : interrupted a = false := by
  cases hr with
  | stopped ha | overflow _ ha => rw [ha]; rfl
  | failed _ _ hi => exact hi

theorem Continues.eq_of_interrupted (hgo : Continues k a m) (hi : interrupted a = true) : m = k := by
  cases hgo with
  | moved n ha =>
    rw [ha] at hi
    cases hi
  | again _ _ _ hm => exact hm

theorem Continues.not_halts (hgo : Continues k a m) : ¬ Halts nothing k a r := by
  rintro (⟨ha', -⟩ | ⟨n', ha', hadd', -⟩ | ⟨f', ha', hi', -⟩) <;>
    rcases hgo with ⟨n, ha, hadd, -⟩ | ⟨f, ha, hi, -⟩ <;>
    simp_all
  omega

theorem Continues.unique (hgo : Continues k a m) (hgo' : Continues k a m') : m = m' := by
  rcases hgo with ⟨n, ha, -, hm⟩ | ⟨f, ha, -, hm⟩ <;>
    rcases hgo' with ⟨n', ha', -, hm'⟩ | ⟨f', ha', -, hm'⟩ <;>
    simp_all

theorem Halts.unique (hr : Halts nothing k a r) (hr' : Halts nothing k a r') : r = r' := by
  rcases hr with ⟨ha, hr⟩ | ⟨n, ha, -, hr⟩ | ⟨f, ha, -, hr⟩ <;>
    rcases hr' with ⟨ha', hr'⟩ | ⟨n', ha', -, hr'⟩ | ⟨f', ha', -, hr'⟩ <;>
    simp_all

/-! ### The answers of a call -/

theorem continues_of_add {n c : Nat} (ha : a = .ok (n + 1)) (hadd : Size.add k (n + 1) = .ok c) :
    Continues k a (k + (n + 1)) :=
  .moved n ha (Size.le_of_add_eq_ok hadd) rfl

theorem halts_of_add {n : Nat} {c : Crash} (ha : a = .ok (n + 1))
    (hadd : Size.add k (n + 1) = .error c) : Halts nothing k a (Attempt.crash c) := by
  obtain ⟨hbig, rfl⟩ := Size.lt_of_add_eq_error hadd
  exact .overflow n ha hbig rfl

theorem continues_of_interrupted {e : IoError} (ha : a = .error (.error e))
    (he : e.isInterrupted = true) : Continues k a k :=
  .again _ ha (by rw [ha]; exact he) rfl

theorem halts_of_error {e : IoError} (ha : a = .error (.error e)) (he : ¬ e.isInterrupted = true) :
    Halts nothing k a (Attempt.fail e) :=
  .failed _ ha (by rw [ha]; exact eq_false_of_ne_true he) rfl

theorem halts_of_crash {c : Crash} (ha : a = .error (.crash c)) :
    Halts nothing k a (Attempt.crash c) :=
  .failed _ ha (by rw [ha]; rfl) rfl

/-! ### Reads -/

/-- Induction on the calls of a read loop. The last argument of the motive is what the loop does. -/
theorem readFrom_induction (b : Backend σ η)
    {motive : σ → η → Span → Nat → ReadReply (σ × η) → Prop}
    (full : ∀ s h buf filled, buf.size ≤ filled →
      motive s h buf filled ⟨⟨.ok filled, (s, h)⟩, buf.byte⟩)
    (halts : ∀ s h buf filled r, filled < buf.size →
      Halts (.ok filled) filled (b.read s h (buf.drop filled)).result r →
      motive s h buf filled ⟨⟨r, (b.read s h (buf.drop filled)).state⟩,
        (buf.overlay filled ⟨buf.size - filled, (b.read s h (buf.drop filled)).written⟩).byte⟩)
    (continues : ∀ s h buf filled m, filled < buf.size →
      Continues filled (b.read s h (buf.drop filled)).result m →
      motive (b.read s h (buf.drop filled)).state.1 (b.read s h (buf.drop filled)).state.2
        (buf.overlay filled ⟨buf.size - filled, (b.read s h (buf.drop filled)).written⟩) m
        (b.readFrom (b.read s h (buf.drop filled)).state.1 (b.read s h (buf.drop filled)).state.2
          (buf.overlay filled ⟨buf.size - filled, (b.read s h (buf.drop filled)).written⟩) m) →
      motive s h buf filled
        (b.readFrom (b.read s h (buf.drop filled)).state.1 (b.read s h (buf.drop filled)).state.2
          (buf.overlay filled ⟨buf.size - filled, (b.read s h (buf.drop filled)).written⟩) m))
    (s : σ) (h : η) (buf : Span) (filled : Nat) :
    motive s h buf filled (b.readFrom s h buf filled) := by
  -- the branches of the loop are told apart here and nowhere else
  fun_induction Backend.readFrom b s h buf filled with
  | case1 s h buf filled hlt x next hx => exact halts s h buf filled _ hlt (.stopped hx rfl)
  | case2 s h buf filled hlt x next n hx _ hadd ih =>
    exact continues s h buf filled _ hlt (continues_of_add hx hadd) ih
  | case3 s h buf filled hlt x next n hx c hadd =>
    exact halts s h buf filled _ hlt (halts_of_add hx hadd)
  | case4 s h buf filled hlt x next e hx hi ih =>
    exact continues s h buf filled _ hlt (continues_of_interrupted hx hi) ih
  | case5 s h buf filled hlt x next e hx hi =>
    exact halts s h buf filled _ hlt (halts_of_error hx hi)
  | case6 s h buf filled hlt x next c hx => exact halts s h buf filled _ hlt (halts_of_crash hx)
  | case7 s h buf filled hge => exact full s h buf filled (Nat.le_of_not_lt hge)

theorem readFrom_of_full (hge : buf.size ≤ filled) :
    b.readFrom s h buf filled = ⟨⟨.ok filled, (s, h)⟩, buf.byte⟩ := by
  rw [readFrom, dif_neg (Nat.not_lt.mpr hge)]

theorem readFrom_of_halts (hlt : filled < buf.size)
    (hr : Halts (.ok filled) filled (b.read s h (buf.drop filled)).result r) :
    b.readFrom s h buf filled = ⟨⟨r, (b.read s h (buf.drop filled)).state⟩,
      (buf.overlay filled ⟨buf.size - filled, (b.read s h (buf.drop filled)).written⟩).byte⟩ := by
  induction s, h, buf, filled using readFrom_induction b with
  | full s h buf filled hge => omega
  | halts s h buf filled r' _ hr' => rw [hr.unique hr']
  | continues s h buf filled m _ hgo => exact absurd hr hgo.not_halts

theorem readFrom_of_continues (hlt : filled < buf.size)
    (hgo : Continues filled (b.read s h (buf.drop filled)).result m) :
    b.readFrom s h buf filled =
      b.readFrom (b.read s h (buf.drop filled)).state.1 (b.read s h (buf.drop filled)).state.2
        (buf.overlay filled ⟨buf.size - filled, (b.read s h (buf.drop filled)).written⟩) m := by
  induction s, h, buf, filled using readFrom_induction b with
  | full s h buf filled hge => omega
  | halts s h buf filled r _ hr => exact absurd hr hgo.not_halts
  | continues s h buf filled m' _ hgo' => rw [hgo.unique hgo']

theorem readFull_of_read (hpos : 0 < buf.size) (hmax : buf.size ≤ Size.max)
    (hr : (b.read s h (buf.drop 0)).result = .ok buf.size) :
    b.readFull s h buf = ⟨⟨.ok buf.size, (b.read s h (buf.drop 0)).state⟩,
      (buf.overlay 0 ⟨buf.size, (b.read s h (buf.drop 0)).written⟩).byte⟩ := by
  have hsize : buf.size = buf.size - 1 + 1 := by omega
  have hgo : Continues 0 (b.read s h (buf.drop 0)).result buf.size :=
    .moved (buf.size - 1) (by rw [← hsize]; exact hr) (by omega) (by omega)
  unfold readFull
  rw [readFrom_of_continues hpos hgo, readFrom_of_full (Nat.le_of_eq (Span.size_overlay ..)), Nat.sub_zero]

/-! ### Writes -/

/-- Induction on the calls of a write loop. The last argument of the motive is what the loop does. -/
theorem writeFrom_induction (b : Backend σ η) (data : List UInt8)
    {motive : σ → η → Nat → IoReply (σ × η) Nat → Prop}
    (full : ∀ s h written, data.length ≤ written →
      motive s h written ⟨.ok written, (s, h)⟩)
    (halts : ∀ s h written r, written < data.length →
      Halts (Attempt.fail .acceptedNothing) written (b.write s h (data.drop written)).result r →
      motive s h written ⟨r, (b.write s h (data.drop written)).state⟩)
    (continues : ∀ s h written m, written < data.length →
      Continues written (b.write s h (data.drop written)).result m →
      motive (b.write s h (data.drop written)).state.1 (b.write s h (data.drop written)).state.2 m
        (b.writeFrom (b.write s h (data.drop written)).state.1
          (b.write s h (data.drop written)).state.2 data m) →
      motive s h written (b.writeFrom (b.write s h (data.drop written)).state.1
        (b.write s h (data.drop written)).state.2 data m))
    (s : σ) (h : η) (written : Nat) : motive s h written (b.writeFrom s h data written) := by
  fun_induction Backend.writeFrom b s h data written with
  | case1 s h written hlt x hx => exact halts s h written _ hlt (.stopped hx rfl)
  | case2 s h written hlt x n hx _ hadd ih =>
    exact continues s h written _ hlt (continues_of_add hx hadd) ih
  | case3 s h written hlt x n hx c hadd => exact halts s h written _ hlt (halts_of_add hx hadd)
  | case4 s h written hlt x e hx hi ih =>
    exact continues s h written _ hlt (continues_of_interrupted hx hi) ih
  | case5 s h written hlt x e hx hi => exact halts s h written _ hlt (halts_of_error hx hi)
  | case6 s h written hlt x c hx => exact halts s h written _ hlt (halts_of_crash hx)
  | case7 s h written hge => exact full s h written (Nat.le_of_not_lt hge)

theorem writeFrom_of_full (hge : data.length ≤ written) :
    b.writeFrom s h data written = ⟨.ok written, (s, h)⟩ := by
  rw [writeFrom, dif_neg (Nat.not_lt.mpr hge)]

theorem writeFrom_of_halts (hlt : written < data.length)
    (hr : Halts (Attempt.fail .acceptedNothing) written (b.write s h (data.drop written)).result r) :
    b.writeFrom s h data written = ⟨r, (b.write s h (data.drop written)).state⟩ := by
  induction s, h, written using writeFrom_induction b data with
  | full s h written hge => omega
  | halts s h written r' _ hr' => rw [hr.unique hr']
  | continues s h written m _ hgo => exact absurd hr hgo.not_halts

theorem writeFrom_of_continues (hlt : written < data.length)
    (hgo : Continues written (b.write s h (data.drop written)).result m) :
    b.writeFrom s h data written =
      b.writeFrom (b.write s h (data.drop written)).state.1
        (b.write s h (data.drop written)).state.2 data m := by
  induction s, h, written using writeFrom_induction b data with
  | full s h written hge => omega
  | halts s h written r _ hr => exact absurd hr hgo.not_halts
  | continues s h written m' _ hgo' => rw [hgo.unique hgo']

end Backend

end FilePipeline
