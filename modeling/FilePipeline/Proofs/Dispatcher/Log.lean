import FilePipeline.Proofs.Dispatcher.Accounts
import FilePipeline.Proofs.Dispatcher.Halting

/-! # The order of acceptance

A queue takes in what is pushed in the order in which it accepts the pushes, and no state tells that
order any more once the work has moved on. `Logged` is a recorded run that keeps it: the list of all
pushes that were accepted, each with the queue and the number of the work. Every recorded run can be
logged (`Recorded.logged`). -/

namespace FilePipeline.Dispatcher

variable {σ η κ : Type} {p : Setup σ η κ} {d d' d₀ : Dispatcher σ κ} {rs : List Submission}
  {as : List (Stage × WorkId)} {ts : List (Turn σ κ)}

/-- `Logged p d₀ rs as ts d`: a run from `d₀` to `d` with the submissions `rs`, in which the pushes `as`
    were accepted and the workers had the turns `ts`. In all other moves a busy worker stays busy with
    its work, and who waits goes on waiting unless the queue is closed. -/
inductive Logged (p : Setup σ η κ) (d₀ : Dispatcher σ κ) :
    List Submission → List (Stage × WorkId) → List (Turn σ κ) → Dispatcher σ κ → Prop
  | start : Logged p d₀ [] [] [] d₀
  | submit {rs : List Submission} {as : List (Stage × WorkId)} {ts : List (Turn σ κ)}
      {d : Dispatcher σ κ} (r : Submission) (h : Logged p d₀ rs as ts d)
      (running : d.halt = .running) : Logged p d₀ (rs ++ [r]) as ts (d.submit p r)
  | accept {rs : List Submission} {as : List (Stage × WorkId)} {ts : List (Turn σ κ)}
      {d : Dispatcher σ κ} {i : Nat} {s : Stage} {w : Work} {q : Queue Work}
      (h : Logged p d₀ rs as ts d) (hw : d.waiting[i]? = some (s, w))
      (hq : (d.queues.get s).offer (.work w) = .accepted q) :
      Logged p d₀ rs (as ++ [(s, w.id)]) ts
        ({ d with waiting := d.waiting.eraseIdx i }.setQueue s q)
  | turn {rs : List Submission} {as : List (Stage × WorkId)} {ts : List (Turn σ κ)}
      {d d' : Dispatcher σ κ} {s : Stage} {w : Work} (h : Logged p d₀ rs as ts d)
      (hw : d.tasks.get s = .busy w) (hs : d.step p (.process s) = some d') :
      Logged p d₀ rs as (ts ++ [⟨d, s, w⟩]) d'
  | move {rs : List Submission} {as : List (Stage × WorkId)} {ts : List (Turn σ κ)}
      {d d' : Dispatcher σ κ} (h : Logged p d₀ rs as ts d) (m : Move p d d')
      (stay : ∀ s w, d.tasks.get s = .busy w → d'.tasks.get s = .busy w)
      (wait : ∀ x ∈ d.waiting, x ∈ d'.waiting ∨ (d.queues.get x.1).closed = true) :
      Logged p d₀ rs as ts d'

/-! ### Every recorded run can be logged -/

theorem Logged.recorded (h : Logged p d₀ rs as ts d) : Recorded p d₀ rs ts d := by
  induction h with
  | start => exact .start
  | submit r _ running ih => exact ih.submit r running
  | accept _ hw hq ih =>
    have hs := step_of_transition (Transition.pushed (p := p) hw hq)
    exact ih.move (.act _ hs) fun s v hv => hv
  | turn _ hw hs ih => exact ih.turn hw hs
  | move _ m stay _ ih => exact ih.move m stay

theorem Recorded.logged (h : Recorded p d₀ rs ts d) : ∃ as, Logged p d₀ rs as ts d := by
  induction h with
  | start => exact ⟨[], .start⟩
  | submit r _ running ih =>
    obtain ⟨as, ih⟩ := ih
    exact ⟨as, ih.submit r running⟩
  | turn _ hw hs ih =>
    obtain ⟨as, ih⟩ := ih
    exact ⟨as, ih.turn hw hs⟩
  | @move rs ts d d' _ m stay ih =>
    obtain ⟨as, ih⟩ := ih
    rcases m.cases with ⟨a, ha⟩ | hc
    · have ht := transition_of_step ha
      by_cases hp : ∃ i, a = .push i
      · obtain ⟨i, rfl⟩ := hp
        cases ht with
        | pushed hw hq => exact ⟨_, ih.accept hw hq⟩
        | @turnedAway i s w hw hq =>
          refine ⟨as, ih.move m stay fun x hx => ?_⟩
          have hrest := waiting_fail { d with waiting := d.waiting.eraseIdx i } w .abandoned
          obtain ⟨j, hj⟩ := List.mem_iff_getElem?.mp hx
          by_cases hij : j = i
          · subst hij
            obtain rfl : (s, w) = x := Option.some.inj (hw.symm.trans hj)
            exact Or.inr (closed_of_offer hq)
          · refine Or.inl ?_
            rw [show Dispatcher.waiting (Dispatcher.notice _ _) = _ from hrest]
            exact List.mem_eraseIdx_iff_getElem?.mpr ⟨j, hij, hj⟩
      · have hsame := waiting_of_transition ht fun i he => hp ⟨i, he⟩
        exact ⟨as, ih.move m stay fun x hx => Or.inl (by rw [hsame]; exact hx)⟩
    · exact ⟨as, ih.move m stay fun x hx => Or.inl (by rw [hc.waiting]; exact hx)⟩

theorem InBalance.id_ne_of_waiting (hb : d.InBalance) {i : Nat} {s : Stage} {w : Work}
    {x : Stage × Work} (hw : d.waiting[i]? = some (s, w)) (hx : x ∈ d.waiting.eraseIdx i) :
    x.2.id ≠ w.id := by
  intro he
  have hone := hb.once w.id
  have hmem : x.2 ∈ { d with waiting := d.waiting.eraseIdx i }.held :=
    mem_held (h := .submitters) (List.mem_map_of_mem hx)
  have hpos : 0 < { d with waiting := d.waiting.eraseIdx i }.held.countP fun v : Work => v.id = w.id :=
    Multiset.countP_pos.mpr ⟨x.2, hmem, he⟩
  rw [held_waiting hw, Multiset.countP_cons, if_pos rfl] at hone
  split at hone <;> omega

/-- Where nobody stops waiting but at a closed queue, no push was accepted. -/
theorem Move.cases_of_wait (hb : d.InBalance) (m : Move p d d')
    (stay : ∀ s w, d.tasks.get s = .busy w → d'.tasks.get s = .busy w)
    (wait : ∀ x ∈ d.waiting, x ∈ d'.waiting ∨ (d.queues.get x.1).closed = true) :
    (∃ a, Transition p d a d' ∧ (∀ s, a ≠ .process s) ∧
      ∀ i s w q, d.waiting[i]? = some (s, w) → a = .push i →
        (d.queues.get s).offer (.work w) ≠ .accepted q) ∨ d.Called d' := by
  rcases m.cases_of_stay stay with ⟨a, ht, ha⟩ | hc
  · refine Or.inl ⟨a, ht, ha, ?_⟩
    rintro i s w q hw rfl hq
    obtain ⟨hopen, -⟩ := Queue.offer_eq_accepted hq
    have hstep := step_of_transition ht
    have hpushed := step_of_transition (Transition.pushed (p := p) hw hq)
    obtain rfl := Option.some.inj (hstep.symm.trans hpushed)
    rcases wait _ (List.mem_of_getElem? hw) with hmem | hclosed
    · exact absurd rfl (hb.id_ne_of_waiting hw hmem)
    · rw [hopen] at hclosed
      cases hclosed
  · exact Or.inr hc

/-! ### Looking back -/

theorem Logged.at_turn {ts₁ ts₂ : List (Turn σ κ)} {t : Turn σ κ} (h : Logged p d₀ rs as ts d)
    (hts : ts = ts₁ ++ t :: ts₂) : ∃ rs₁ as₁, rs₁ <+: rs ∧ as₁ <+: as ∧
      Logged p d₀ rs₁ as₁ ts₁ t.before ∧ t.before.tasks.get t.stage = .busy t.work := by
  induction h generalizing ts₂ with
  | start => cases ts₁ <;> cases hts
  | submit r _ _ ih =>
    obtain ⟨rs₁, as₁, hrs, has, h⟩ := ih hts
    exact ⟨rs₁, as₁, hrs.trans (List.prefix_append _ _), has, h⟩
  | accept _ _ _ ih =>
    obtain ⟨rs₁, as₁, hrs, has, h⟩ := ih hts
    exact ⟨rs₁, as₁, hrs, has.trans (List.prefix_append _ _), h⟩
  | @turn rs as ts d d' s w h hw hs ih =>
    rcases List.eq_nil_or_concat ts₂ with rfl | ⟨ts₂, u, rfl⟩
    · obtain ⟨rfl, hu⟩ := List.append_inj' hts rfl
      obtain rfl := (List.cons.inj hu).1
      exact ⟨rs, as, List.prefix_refl _, List.prefix_refl _, h, hw⟩
    · rw [List.concat_eq_append, ← List.cons_append, ← List.append_assoc] at hts
      obtain ⟨hinit, -⟩ := List.append_inj' hts rfl
      exact ih hinit
  | move _ _ _ _ ih => exact ih hts

/-! ### What is accepted -/

/-- Who waits, waits at the first queue of the route. -/
theorem Run.waiting_asked (h₀ : Unused p d₀) (h : Run p d₀ rs d) {x : Stage × Work}
    (hx : x ∈ d.waiting) : ∃ r, rs[x.2.id]? = some r ∧ firstStage r = x.1 := by
  induction h with
  | start =>
    rw [h₀.waiting] at hx
    exact absurd hx List.not_mem_nil
  | @submit rs d r h _ ih =>
    have old : x ∈ d.waiting → ∃ r', (rs ++ [r])[x.2.id]? = some r' ∧ firstStage r' = x.1 := by
      intro hx
      obtain ⟨r', hr', hs⟩ := ih hx
      exact ⟨r', (List.getElem?_append_left (List.getElem?_eq_some_iff.mp hr').1).trans hr', hs⟩
    rcases submit_eq p d r with ⟨e, -, he⟩ | ⟨path, -, he⟩
    · rw [he, waiting_fail] at hx
      exact old hx
    · rw [he] at hx
      rcases List.mem_append.mp hx with hx | hx
      · exact old hx
      · obtain rfl := List.mem_singleton.mp hx
        have hid : ({ Work.ofSubmission d.nextId p.ownHeap r with path } : Work).id = rs.length := by
          rw [← h.length h₀.tickets]
          cases r <;> rfl
        exact ⟨r, by rw [hid]; simp, rfl⟩
  | move _ m ih =>
    rcases m.cases with ⟨a, ha⟩ | hc
    · exact ih (waiting_subset (transition_of_step ha) hx)
    · rw [hc.waiting] at hx
      exact ih hx

theorem Logged.asked (h₀ : Unused p d₀) (h : Logged p d₀ rs as ts d) {x : Stage × WorkId}
    (hx : x ∈ as) : ∃ r, rs[x.2]? = some r ∧ firstStage r = x.1 := by
  induction h with
  | start => exact absurd hx List.not_mem_nil
  | submit r _ _ ih =>
    obtain ⟨r', hr', hs⟩ := ih hx
    exact ⟨r', (List.getElem?_append_left (List.getElem?_eq_some_iff.mp hr').1).trans hr', hs⟩
  | accept h hw _ ih =>
    rcases List.mem_append.mp hx with hx | hx
    · exact ih hx
    · obtain rfl := List.mem_singleton.mp hx
      exact h.recorded.run.waiting_asked h₀ (List.mem_of_getElem? hw)
  | turn _ _ _ ih => exact ih hx
  | move _ _ _ _ ih => exact ih hx

/-- No push is accepted twice, and whose push was accepted does not wait any more. -/
theorem Logged.once (h₀ : Unused p d₀) (h : Logged p d₀ rs as ts d) :
    (as.map Prod.snd).Nodup ∧ ∀ x ∈ d.waiting, x.2.id ∉ as.map Prod.snd := by
  induction h with
  | start => exact ⟨List.nodup_nil, fun x _ => List.not_mem_nil⟩
  | @submit rs as ts d r h _ ih =>
    obtain ⟨hnodup, hfree⟩ := ih
    refine ⟨hnodup, fun x hx => ?_⟩
    rcases submit_eq p d r with ⟨e, -, he⟩ | ⟨path, -, he⟩
    · rw [he, waiting_fail] at hx
      exact hfree x hx
    · rw [he] at hx
      rcases List.mem_append.mp hx with hx | hx
      · exact hfree x hx
      · obtain rfl := List.mem_singleton.mp hx
        intro hmem
        obtain ⟨y, hy, hid⟩ := List.mem_map.mp hmem
        obtain ⟨r', hr', -⟩ := h.asked h₀ hy
        have hlt := (List.getElem?_eq_some_iff.mp hr').1
        have hlen : d.nextId = rs.length := h.recorded.run.length h₀.tickets
        have hnew : ({ Work.ofSubmission d.nextId p.ownHeap r with path } : Work).id = d.nextId := by
          cases r <;> rfl
        exact absurd (hid.trans (hnew.trans hlen)) (Nat.ne_of_lt hlt)
  | @accept rs as ts d i s w q h hw hq ih =>
    obtain ⟨hnodup, hfree⟩ := ih
    have hb := h.recorded.run.balanced h₀.inBalance
    have hnew : w.id ∉ as.map Prod.snd := hfree _ (List.mem_of_getElem? hw)
    rw [List.map_append]
    refine ⟨List.nodup_append.mpr ⟨hnodup, List.nodup_singleton _, ?_⟩, fun x hx hmem => ?_⟩
    · intro a ha b hmem he
      rw [he, List.mem_singleton.mp hmem] at ha
      exact hnew ha
    · have hx : x ∈ d.waiting.eraseIdx i := hx
      rcases List.mem_append.mp hmem with hmem | hmem
      · exact hfree x (List.mem_of_mem_eraseIdx hx) hmem
      · exact hb.id_ne_of_waiting hw hx (List.mem_singleton.mp hmem)
  | @turn rs as ts d d' s w _ hw hs ih =>
    exact ⟨ih.1, fun x hx => ih.2 x (waiting_subset (transition_of_step hs) hx)⟩
  | move _ m _ _ ih =>
    refine ⟨ih.1, fun x hx => ih.2 x ?_⟩
    rcases m.cases with ⟨a, ha⟩ | hc
    · exact waiting_subset (transition_of_step ha) hx
    · rw [← hc.waiting]
      exact hx

end FilePipeline.Dispatcher
