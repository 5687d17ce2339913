import FilePipeline.Proofs.Dispatcher.Accounts

/-! # The I/O stages one after the other

Only the turns of the I/O worker touch the backend, each as a whole: what the backend is like is the
result of those turns, one after the other (`Recorded.backend_eq`), and each of them found it as the
ones before had left it (`Recorded.backend_at`). A piece of work has at most one of them
(`Recorded.io_once`). -/

namespace FilePipeline.Dispatcher

variable {σ η κ : Type} {p : Setup σ η κ} {d d' d₀ : Dispatcher σ κ} {rs : List Submission}
  {ts : List (Turn σ κ)}

/-! ### The backend -/

/-- What a turn does to the backend. -/
def Turn.effect (p : Setup σ η κ) (t : Turn σ κ) (s : σ) : σ :=
  match t.stage with
  | .io => (Stage.processIo p t.before.heaps s t.work).state
  | .compression => s

/-- What turns do to the backend, one after the other. -/
def effects (p : Setup σ η κ) (ts : List (Turn σ κ)) (s : σ) : σ :=
  ts.foldl (fun s t => t.effect p s) s

/-- What the I/O stage preserves of the backend, a row of turns does. -/
theorem effects_of_processIo {S : σ → Prop}
    (hstep : ∀ t ∈ ts, t.stage = .io → ∀ s, S s → S (Stage.processIo p t.before.heaps s t.work).state)
    {s : σ} (hs : S s) : S (effects p ts s) := by
  unfold effects
  induction ts generalizing s with
  | nil => exact hs
  | cons t ts ih =>
    refine ih (fun u hu => hstep u (List.mem_cons_of_mem _ hu)) ?_
    have hstep := hstep t List.mem_cons_self
    obtain ⟨d, stage, w⟩ := t
    cases stage with
    | io => exact hstep rfl s hs
    | compression => exact hs

theorem apart_backend : Apart (backend : Dispatcher σ κ → σ) := fun _ _ _ _ _ => rfl

theorem backend_sendPill (d : Dispatcher σ κ) (s : Stage) : (d.sendPill s).backend = d.backend := by
  unfold sendPill
  split <;> rfl

theorem backend_of_transition {a : Action} (ht : Transition p d a d') (ha : ∀ s, a ≠ .process s) :
    d'.backend = d.backend := by
  cases ht with
  | turnedAway => exact apart_backend.fail _ _ _
  | readied | ended | crashed => exact absurd rfl (ha _)
  | refused => exact apart_backend.settle _ _ _
  | left => exact apart_backend.abandonAll _ _
  | leftCrashed => exact (apart_backend.abandonAll _ _).trans (backend_sendPill _ _)
  | closedIo => exact apart_backend.failAll _ _
  | closedCompression => exact apart_backend.failAll _ _
  | _ => rfl

theorem backend_conclude (d : Dispatcher σ κ) (s : Stage) (w : Work) (r : Attempt WorkError Unit) :
    (d.conclude s w r).backend = d.backend := by
  rcases d.conclude_cases s w r with ⟨-, -, he⟩ | ⟨-, e, he⟩
  · rw [he]
    rfl
  · rw [he]
    exact apart_backend.settle _ _ _

theorem backend_submit (r : Submission) : (d.submit p r).backend = d.backend := by
  rcases submit_eq p d r with ⟨e, -, he⟩ | ⟨path, -, he⟩
  · rw [he]
    exact apart_backend.fail _ _ _
  · rw [he]
    rfl

theorem backend_of_turn {s : Stage} {w : Work} (hw : d.tasks.get s = .busy w)
    (hs : d.step p (.process s) = some d') :
    d'.backend = (⟨d, s, w⟩ : Turn σ κ).effect p d.backend := by
  obtain ⟨d₁, w', r, hp, rfl⟩ := turn_cases hw hs
  rw [backend_conclude]
  cases s <;> cases hp <;> rfl

/-- The backend is as the turns of the run have left it, one after the other. -/
theorem Recorded.backend_eq (h : Recorded p d₀ rs ts d) : d.backend = effects p ts d₀.backend := by
  induction h with
  | start => rfl
  | submit r _ _ ih => rw [backend_submit]; exact ih
  | @turn rs ts d d' s w h hw hs ih =>
    unfold effects at ih ⊢
    rw [List.foldl_append, ← ih]
    exact backend_of_turn hw hs
  | move _ m stay ih =>
    rcases m.cases_of_stay stay with ⟨a, ht, ha⟩ | hc
    · rw [backend_of_transition ht ha]
      exact ih
    · rw [hc.backend]
      exact ih

theorem Recorded.backend_at {ts₁ ts₂ : List (Turn σ κ)} {t : Turn σ κ} (h : Recorded p d₀ rs ts d)
    (hts : ts = ts₁ ++ t :: ts₂) : t.before.backend = effects p ts₁ d₀.backend := by
  obtain ⟨rs₁, -, hrec, -⟩ := h.at_turn hts
  exact hrec.backend_eq

/-! ### Each piece of work once -/

def ioTurns (ts : List (Turn σ κ)) : List (Turn σ κ) := ts.filter (·.stage = .io)

/-- Work that is to go through the I/O stage has not been there yet. -/
def Ahead (ts : List (Turn σ κ)) (s : Stage) (w : Work) : Prop :=
  (s = .io ∨ w.op = .write) → ∀ t ∈ ioTurns ts, t.work.id ≠ w.id

theorem mem_ioTurns {t : Turn σ κ} : t ∈ ioTurns ts ↔ t ∈ ts ∧ t.stage = .io := by
  unfold ioTurns
  rw [List.mem_filter, decide_eq_true_eq]

theorem effects_ioTurns (p : Setup σ η κ) (ts : List (Turn σ κ)) (s : σ) :
    effects p (ioTurns ts) s = effects p ts s := by
  unfold effects ioTurns
  rw [List.foldl_filter]
  congr 1
  funext s t
  unfold Turn.effect
  cases t.stage <;> rfl

/-- A turn of the I/O worker finds the backend as those before it have left it. -/
theorem Recorded.backend_at_io {us₁ us₂ : List (Turn σ κ)} {u : Turn σ κ}
    (h : Recorded p d₀ rs ts d) (hus : ioTurns ts = us₁ ++ u :: us₂) :
    u.before.backend = effects p us₁ d₀.backend := by
  unfold ioTurns at hus
  obtain ⟨ts₁, ts', rfl, rfl, hu⟩ := List.filter_eq_append_iff.mp hus
  obtain ⟨ts₂, ts₃, rfl, hnone, -, -⟩ := List.filter_eq_cons_iff.mp hu
  have hat := h.backend_at (List.append_assoc ts₁ ts₂ (u :: ts₃)).symm
  have hskip : ioTurns ts₂ = [] := List.filter_eq_nil_iff.mpr hnone
  rw [hat, ← effects_ioTurns]
  unfold ioTurns at hskip ⊢
  rw [List.filter_append, hskip, List.append_nil]

theorem Recorded.id_lt (h₀ : Unused p d₀) (h : Recorded p d₀ rs ts d) {t : Turn σ κ} (ht : t ∈ ts) :
    t.work.id < rs.length := by
  obtain ⟨ts₁, ts₂, rfl⟩ := List.append_of_mem ht
  obtain ⟨rs₁, hrs, hrec, hw⟩ := h.at_turn rfl
  obtain ⟨u, hu, -⟩ := (hrec.run.balanced h₀.inBalance).op t.work
    (mem_held (mem_worksOf_worker hw List.mem_cons_self))
  have hlt := (List.getElem?_eq_some_iff.mp hu).1
  rw [hrec.run.length h₀.tickets] at hlt
  exact Nat.lt_of_lt_of_le hlt hrs.length_le

theorem account_ahead (h₀ : Unused p d₀) : Account p d₀ fun _ ts => Ahead ts where
  asked := by
    intro rs ts d r path h _ _ t ht he
    have hlt := h.id_lt h₀ (mem_ioTurns.mp ht).1
    cases r <;> exact absurd he (Nat.ne_of_lt hlt)
  ready := by
    intro rs ts d s w w' d₁ h hw hP hp hh hio t ht
    have hsame := sameAs_of_processing hp
    cases s with
    | io =>
      -- the I/O stage hands reads on, which do not come back to it
      have hop : w'.op = .read := by
        have := hh
        unfold handsOn at this
        simp only [Bool.and_eq_true, beq_iff_eq] at this
        exact this.1
      rcases hio with hio | hio
      · cases hio
      · rw [hop] at hio
        cases hio
    | compression =>
      have hop : w.op = .write := hsame.op ▸ beq_iff_eq.mp hh
      rcases List.mem_append.mp (mem_ioTurns.mp ht).1 with ht' | ht'
      · rw [hsame.id]
        exact hP (Or.inr hop) t (mem_ioTurns.mpr ⟨ht', (mem_ioTurns.mp ht).2⟩)
      · obtain rfl := List.mem_singleton.mp ht'
        cases (mem_ioTurns.mp ht).2
  later _ h := h
  others := by
    intro rs ts s w u hne hP hio t ht
    rcases List.mem_append.mp (mem_ioTurns.mp ht).1 with ht' | ht'
    · exact hP hio t (mem_ioTurns.mpr ⟨ht', (mem_ioTurns.mp ht).2⟩)
    · obtain rfl := List.mem_singleton.mp ht'
      exact hne

/-- No work goes through the I/O stage twice. -/
theorem Recorded.io_once (h₀ : Unused p d₀) (h : Recorded p d₀ rs ts d) :
    ((ioTurns ts).map fun t => t.work.id).Nodup := by
  induction h with
  | start => exact List.nodup_nil
  | submit _ _ _ ih => exact ih
  | @turn rs ts d d' s w h hw hs ih =>
    unfold ioTurns at ih ⊢
    rw [List.filter_append, List.map_append]
    refine List.nodup_append.mpr ⟨ih, ?_, ?_⟩
    · cases s
      · exact List.nodup_singleton _
      · exact List.nodup_nil
    · intro id hid id' hid' he
      obtain ⟨t, ht, rfl⟩ := List.mem_map.mp hid
      obtain ⟨u, hu, rfl⟩ := List.mem_map.mp hid'
      obtain ⟨hu, hio⟩ := mem_ioTurns.mp hu
      obtain rfl := List.mem_singleton.mp hu
      have hP := ((account_ahead h₀).holds h₀ h).task s
      rw [hw] at hP
      exact hP (Or.inl hio) t ht he
  | move _ _ _ ih => exact ih

theorem Recorded.eq_of_io (h₀ : Unused p d₀) (h : Recorded p d₀ rs ts d) {t u : Turn σ κ}
    (ht : t ∈ ioTurns ts) (hu : u ∈ ioTurns ts) (hid : t.work.id = u.work.id) : t = u :=
  List.inj_on_of_nodup_map (h.io_once h₀) ht hu hid

theorem Recorded.id_ne_of_later (h₀ : Unused p d₀) {ts₁ ts₂ : List (Turn σ κ)} {u t : Turn σ κ}
    (h : Recorded p d₀ rs (ts₁ ++ u :: ts₂) d) (hu : u.stage = .io) (ht : t ∈ ts₂)
    (hio : t.stage = .io) : t.work.id ≠ u.work.id := by
  intro he
  have honce := h.io_once h₀
  unfold ioTurns at honce
  rw [List.filter_append, List.map_append, List.filter_cons_of_pos (by simpa using hu),
    List.map_cons] at honce
  refine (List.nodup_cons.mp honce.of_append_right).1 ?_
  rw [← he]
  exact List.mem_map_of_mem (mem_ioTurns.mpr ⟨ht, hio⟩)

end FilePipeline.Dispatcher
