import FilePipeline.Proofs.Dispatcher.Custody
import FilePipeline.Proofs.Dispatcher.WriteEffect
import FilePipeline.Proofs.Stage.Likeness

/-! # Work on paths of its own

In a run whose submissions are on pairwise distinct paths no I/O turn meets what another one has left:
over a backend that keeps its files apart each of them finds the part of its path as it was at the start
(`Recorded.part_at`), and what it leaves there stays (`Recorded.part_of_turn`). The shape of the heaps is
the same all along (`Run.shape_eq`). So two turns at work that is alike do the same (`Turn.Like.same`),
whatever happened before them. -/

namespace FilePipeline.Dispatcher

variable {σ η κ τ : Type} {p : Setup σ η κ} {v : Parts σ η τ} {d d' d₁ d₀ : Dispatcher σ κ}
  {rs : List Submission} {ts : List (Turn σ κ)} {s : Stage} {w w' : Work} {f : String}

/-! ### The shape of the heaps -/

theorem shape_settle (d : Dispatcher σ κ) (w : Work) (r : Except WorkError Unit) :
    (d.settle w r).heaps.shape = d.heaps.shape := by
  unfold settle
  split
  · exact Stage.shape_drop w.buffer d.heaps
  · split
    · exact Stage.shape_drop w.buffer d.heaps
    · rfl

theorem shape_submit (p : Setup σ η κ) (d : Dispatcher σ κ) (r : Submission) :
    (d.submit p r).heaps.shape = d.heaps.shape := by
  rcases submit_eq p d r with ⟨e, -, hs⟩ | ⟨path, -, hs⟩
  · rw [hs]
    exact shape_settle _ _ _
  · rw [hs]
    rfl

theorem shape_processing {r : Attempt WorkError Unit} (h : d.processing p s w = (d₁, w', r)) :
    d₁.heaps.shape = d.heaps.shape := by
  cases s with
  | io =>
    cases h
    exact Stage.shape_processIo p d.heaps d.backend w
  | compression =>
    cases h
    exact Stage.shape_processCompression p d.heaps d.codec w

theorem shape_conclude (d : Dispatcher σ κ) (s : Stage) (w : Work) (r : Attempt WorkError Unit) :
    (d.conclude s w r).heaps.shape = d.heaps.shape := by
  rcases d.conclude_cases s w r with ⟨-, -, he⟩ | ⟨-, e, he⟩
  · rw [he]
    rfl
  · rw [he]
    exact shape_settle d w e

theorem shape_move (hb : d.InBalance) (m : Move p d d') : d'.heaps.shape = d.heaps.shape := by
  cases m with
  | act a hs =>
    have ht := transition_of_step hs
    by_cases ha : ∃ s, a = .process s
    · obtain ⟨s, rfl⟩ := ha
      have hw : ∃ w, d.tasks.get s = .busy w := by
        cases ht with
        | readied ht | ended ht | crashed ht => exact ⟨_, ht⟩
      obtain ⟨w, hw⟩ := hw
      obtain ⟨d₁, w', r, hp, rfl⟩ := turn_cases hw hs
      exact (shape_conclude d₁ s w' r).trans (shape_processing hp)
    · rw [(hb.passes ht fun s he => ha ⟨s, he⟩).heaps]
  | beginHalt =>
    unfold beginHalt
    split
    · split <;> rfl
    · rfl
  | look id =>
    unfold look
    split <;> rfl
  | poll id waker =>
    unfold poll
    split <;> rfl
  | take id =>
    unfold take
    split <;> rfl
  | dropHandle id =>
    unfold dropHandle
    split
    · exact Stage.shape_drop _ d.heaps
    · rfl
  | dropTaken b => exact Heaps.shape_dropBuffer d.heaps b

theorem Run.shape_eq (h₀ : Unused p d₀) (h : Run p d₀ rs d) : d.heaps.shape = d₀.heaps.shape := by
  induction h with
  | start => rfl
  | submit r _ _ ih => exact (shape_submit p _ r).trans ih
  | move h m ih => exact (shape_move (h.balanced h₀.inBalance) m).trans ih

theorem Recorded.shape_at (h₀ : Unused p d₀) (h : Recorded p d₀ rs ts d) {t : Turn σ κ}
    (ht : t ∈ ts) : t.before.heaps.shape = d₀.heaps.shape := by
  obtain ⟨ts₁, ts₂, hts⟩ := List.append_of_mem ht
  obtain ⟨rs₁, -, hbefore, -⟩ := h.at_turn hts
  exact hbefore.run.shape_eq h₀

theorem Recorded.steady_at (h₀ : Unused p d₀) (h : Recorded p d₀ rs ts d)
    (hsteady : d₀.heaps.Steady) {t : Turn σ κ} (ht : t ∈ ts) : t.before.heaps.Steady := by
  unfold Heaps.Steady
  rw [h.shape_at h₀ ht]
  exact hsteady

/-! ### Turns at work that is alike -/

/-- Two turns at work that is alike which find the same at its path. -/
structure Turn.Like (v : Parts σ η τ) (t t' : Turn σ κ) : Prop where
  stage : t'.stage = t.stage
  work : t.work.Like t'.work
  shape : t.before.heaps.shape = t'.before.heaps.shape
  part : t.stage = .io →
    v.part t.before.backend t.work.path.text = v.part t'.before.backend t.work.path.text

/-- They do the same. -/
structure Turn.Same (p : Setup σ η κ) (v : Parts σ η τ) (t t' : Turn σ κ) : Prop where
  result : t.result p = t'.result p
  after : (t.after p).Like (t'.after p)
  part : t.stage = .io → v.part (t.effect p t.before.backend) t.work.path.text =
    v.part (t'.effect p t'.before.backend) t.work.path.text

theorem Turn.Like.same {t t' : Turn σ κ} (hb : p.backend.PerPath v) (hc : p.codec.Pure)
    (hsteady : t.before.heaps.Steady) (h : t.Like v t') : Turn.Same p v t t' := by
  obtain ⟨d, s, w⟩ := t
  obtain ⟨d', s', w'⟩ := t'
  obtain rfl : s' = s := h.stage
  cases s' with
  | io =>
    have hsame := Stage.processIo_like (p := p) hb h.shape hsteady h.work (h.part rfl)
    exact ⟨hsame.result, hsame.work, fun _ => hsame.state.1⟩
  | compression =>
    have hsame := Stage.processCompression_like (p := p) hc h.shape hsteady h.work d.codec d'.codec
    exact ⟨hsame.result, hsame.work, fun he => by cases he⟩

theorem Turn.Same.readied {t t' : Turn σ κ} (h : Turn.Same p v t t') (hs : t'.stage = t.stage) :
    t.readied p = t'.readied p := by
  obtain ⟨id, b, hafter, -⟩ := h.after
  unfold Turn.readied
  rw [← h.result, hs, hafter]
  rfl

theorem Turn.Same.verdict {t t' : Turn σ κ} (h : Turn.Same p v t t') :
    t.verdict p = t'.verdict p := by
  unfold Turn.verdict
  rw [h.result]

/-! ### Turns on other paths -/

theorem part_effect (hb : p.backend.PerPath v) {t : Turn σ κ} (hsteady : t.before.heaps.Steady)
    (hne : t.stage = .io → t.work.path.text ≠ f) (s : σ) :
    v.part (t.effect p s) f = v.part s f := by
  obtain ⟨d, st, w⟩ := t
  cases st with
  | compression => rfl
  | io =>
    have hsame := Stage.processIo_like (p := p) (s := s) hb rfl hsteady (.refl w) rfl
    exact hsame.state.2 f (hne rfl).symm

theorem part_effects (hb : p.backend.PerPath v) (hsteady : ∀ t ∈ ts, t.before.heaps.Steady)
    (hne : ∀ t ∈ ts, t.stage = .io → t.work.path.text ≠ f) (s : σ) :
    v.part (effects p ts s) f = v.part s f := by
  unfold effects
  induction ts generalizing s with
  | nil => rfl
  | cons t ts ih =>
    have hrest := ih (fun u hu => hsteady u (List.mem_cons_of_mem _ hu))
      (fun u hu => hne u (List.mem_cons_of_mem _ hu)) (t.effect p s)
    exact hrest.trans (part_effect hb (hsteady t List.mem_cons_self) (hne t List.mem_cons_self) s)

section

variable (h₀ : Unused p d₀) (h : Recorded p d₀ rs ts d) (hd : (rs.map Submission.path).Nodup)

include h₀ h

theorem Recorded.path_of_turn {t : Turn σ κ} (ht : t ∈ ts) :
    ∃ r, rs[t.work.id]? = some r ∧ t.work.path.text = r.path := by
  obtain ⟨r, hr, ha⟩ := (h.origin h₀ ht).asked
  exact ⟨r, hr, ha.text⟩

include hd

theorem Recorded.id_of_path {t : Turn σ κ} (ht : t ∈ ts) {id : WorkId} {r : Submission}
    (hr : rs[id]? = some r) (hpath : t.work.path.text = r.path) : t.work.id = id := by
  obtain ⟨r', hr', hpath'⟩ := h.path_of_turn h₀ ht
  have hlt : t.work.id < (rs.map Submission.path).length := by
    rw [List.length_map]
    exact (List.getElem?_eq_some_iff.mp hr').1
  refine (List.getElem?_inj hlt hd).mp ?_
  rw [List.getElem?_map, List.getElem?_map, hr, hr', Option.map_some, Option.map_some, ← hpath',
    hpath]

theorem Recorded.path_ne {t u : Turn σ κ} (ht : t ∈ ts) (hu : u ∈ ts)
    (hne : t.work.id ≠ u.work.id) : t.work.path.text ≠ u.work.path.text := by
  obtain ⟨r, hr, hpath⟩ := h.path_of_turn h₀ hu
  intro he
  exact hne (h.id_of_path h₀ hd ht hr (he.trans hpath))

variable (hb : p.backend.PerPath v) (hsteady : d₀.heaps.Steady)

include hb hsteady

theorem Recorded.part_of_turn {t : Turn σ κ} (ht : t ∈ ts) (hio : t.stage = .io) :
    v.part d.backend t.work.path.text = v.part (t.effect p t.before.backend) t.work.path.text := by
  obtain ⟨ts₁, ts₂, rfl⟩ := List.append_of_mem ht
  have hend : d.backend = effects p ts₂ (t.effect p t.before.backend) := by
    rw [h.backend_eq, h.backend_at rfl]
    unfold effects
    rw [List.foldl_append, List.foldl_cons]
  have hmem : ∀ u ∈ ts₂, u ∈ ts₁ ++ t :: ts₂ := fun u hu =>
    List.mem_append_right _ (List.mem_cons_of_mem _ hu)
  rw [hend]
  refine part_effects hb (fun u hu => h.steady_at h₀ hsteady (hmem u hu)) (fun u hu huio => ?_) _
  exact h.path_ne h₀ hd (hmem u hu) ht (h.id_ne_of_later h₀ hio hu huio)

/-- A turn of the I/O worker finds its path as it was at the start. -/
theorem Recorded.part_at {t : Turn σ κ} (ht : t ∈ ts) (hio : t.stage = .io) :
    v.part t.before.backend t.work.path.text = v.part d₀.backend t.work.path.text := by
  obtain ⟨ts₁, ts₂, rfl⟩ := List.append_of_mem ht
  have hmem : ∀ u ∈ ts₁, u ∈ ts₁ ++ t :: ts₂ := fun u hu => List.mem_append_left _ hu
  rw [h.backend_at rfl]
  refine part_effects hb (fun u hu => h.steady_at h₀ hsteady (hmem u hu)) (fun u hu huio => ?_) _
  refine h.path_ne h₀ hd (hmem u hu) ht fun hid => ?_
  -- the work of this turn has had no I/O turn before
  obtain ⟨us, us', rfl⟩ := List.append_of_mem hu
  rw [List.append_assoc, List.cons_append] at h
  exact h.id_ne_of_later h₀ huio (List.mem_append_right _ List.mem_cons_self) hio hid.symm

omit hd in
theorem Recorded.part_of_none (hno : ∀ t ∈ ts, t.stage = .io → t.work.path.text ≠ f) :
    v.part d.backend f = v.part d₀.backend f := by
  rw [h.backend_eq]
  exact part_effects hb (fun u hu => h.steady_at h₀ hsteady hu) hno _

end

end FilePipeline.Dispatcher
