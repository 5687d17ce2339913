import FilePipeline.Proofs.Dispatcher.Completion
import FilePipeline.Proofs.Dispatcher.Turns

/-! # What is known of work from the run behind it

An account says something about each piece of work by the stage that it is to go through next, and may
refer to the submissions and the turns of the run so far. If it is true of work that is submitted and of
work that is handed on, and what comes later does not spoil it (`Account`), then it is true of all work
at any time (`Account.holds`), and so of the work in each turn of a run (`Account.at_turn`). -/

namespace FilePipeline.Dispatcher

variable {σ η κ : Type} {p : Setup σ η κ} {d d' d₀ : Dispatcher σ κ} {rs : List Submission}
  {ts : List (Turn σ κ)}

/-- A recorded run is one up to any of its turns, that turn, and one from there on. -/
theorem Recorded.split {ts₁ ts₂ : List (Turn σ κ)} {t : Turn σ κ} (h : Recorded p d₀ rs ts d)
    (hts : ts = ts₁ ++ t :: ts₂) : ∃ rs₁ rs₂ d₁, rs = rs₁ ++ rs₂ ∧
      Recorded p d₀ rs₁ ts₁ t.before ∧ t.before.tasks.get t.stage = .busy t.work ∧
      t.before.step p (.process t.stage) = some d₁ ∧ Recorded p d₁ rs₂ ts₂ d := by
  induction h generalizing ts₂ with
  | start => cases ts₁ <;> cases hts
  | submit r _ hr ih =>
    obtain ⟨rs₁, rs₂, d₁, rfl, h, hw, hs, hlater⟩ := ih hts
    exact ⟨rs₁, rs₂ ++ [r], d₁, List.append_assoc _ _ _, h, hw, hs, hlater.submit r hr⟩
  | @turn rs ts d d' s w h hw hs ih =>
    rcases List.eq_nil_or_concat ts₂ with rfl | ⟨ts₂, u, rfl⟩
    · obtain ⟨rfl, hu⟩ := List.append_inj' hts rfl
      obtain rfl := (List.cons.inj hu).1
      exact ⟨rs, [], d', (List.append_nil _).symm, h, hw, hs, .start⟩
    · rw [List.concat_eq_append, ← List.cons_append, ← List.append_assoc] at hts
      obtain ⟨hinit, hu⟩ := List.append_inj' hts rfl
      obtain rfl := (List.cons.inj hu).1
      obtain ⟨rs₁, rs₂, d₁, rfl, h, hw', hs', hlater⟩ := ih hinit
      exact ⟨rs₁, rs₂, d₁, rfl, h, hw', hs', by simpa using hlater.turn hw hs⟩
  | move _ m stay ih =>
    obtain ⟨rs₁, rs₂, d₁, rfl, h, hw, hs, hlater⟩ := ih hts
    exact ⟨rs₁, rs₂, d₁, rfl, h, hw, hs, hlater.move m stay⟩

theorem Recorded.at_turn {ts₁ ts₂ : List (Turn σ κ)} {t : Turn σ κ} (h : Recorded p d₀ rs ts d)
    (hts : ts = ts₁ ++ t :: ts₂) : ∃ rs₁, rs₁ <+: rs ∧ Recorded p d₀ rs₁ ts₁ t.before ∧
      t.before.tasks.get t.stage = .busy t.work := by
  obtain ⟨rs₁, rs₂, d₁, rfl, h, hw, -, -⟩ := h.split hts
  exact ⟨rs₁, List.prefix_append _ _, h, hw⟩

theorem Placement.Holds.mono {P Q : Stage → Work → Prop} (h : (Placement.ofStage P).Holds d)
    (hPQ : ∀ s, ∀ w ∈ d.held, P s w → Q s w) : (Placement.ofStage Q).Holds d := by
  refine ⟨fun x hx => ?_, fun s e he w hw => ?_, fun s => ?_⟩
  · exact hPQ _ _ (mem_held (h := .submitters) (List.mem_map_of_mem hx)) (h.waiting x hx)
  · have hmem : w ∈ (d.queues.get s).works := Item.mem_works.mpr (List.mem_map.mpr ⟨e, he, hw⟩)
    exact hPQ _ _ (mem_held (h := .queue s) hmem) (h.queued s e he w hw)
  · have ht := h.task s
    cases hd : d.tasks.get s with
    | busy w =>
      rw [hd] at ht
      exact hPQ _ _ (mem_held (mem_worksOf_worker hd List.mem_cons_self)) ht
    | handing w =>
      rw [hd] at ht
      exact hPQ _ _ (mem_held (mem_worksOf_worker hd List.mem_cons_self)) ht
    | _ => trivial

theorem InBalance.id_ne_of_mem (hb : d.InBalance) {s : Stage} {w v : Work}
    (hw : d.tasks.get s = .busy w) (hv : v ∈ (d.setTask s .idle).held) : v.id ≠ w.id := by
  intro he
  have hone := hb.once w.id
  rw [held_setTask_drop (t := .idle) (works_of_busy hw) rfl, Multiset.countP_cons, if_pos rfl] at hone
  have hpos : 0 < (d.setTask s .idle).held.countP fun u => u.id = w.id :=
    Multiset.countP_pos.mpr ⟨v, hv, he⟩
  split at hone <;> omega

/-- Something said about work by its next stage and the run so far, from the start `d₀` on. -/
structure Account (p : Setup σ η κ) (d₀ : Dispatcher σ κ)
    (P : List Submission → List (Turn σ κ) → Stage → Work → Prop) : Prop where
  /-- It is true of work that is submitted, -/
  asked : ∀ {rs ts d r path}, Recorded p d₀ rs ts d → PathField.ofString? r.path = .ok path →
    P (rs ++ [r]) ts (firstStage r) { Work.ofSubmission rs.length p.ownHeap r with path }
  /-- and of work that is handed on. -/
  ready : ∀ {rs ts d s w w' d₁}, Recorded p d₀ rs ts d → d.tasks.get s = .busy w → P rs ts s w →
    d.processing p s w = (d₁, w', .ok ()) → handsOn s w' = true →
    P rs (ts ++ [⟨d, s, w⟩]) s.peer w'
  /-- Other submissions and the turns of other work do not spoil it. -/
  later : ∀ {rs ts s w} (r : Submission), P rs ts s w → P (rs ++ [r]) ts s w
  others : ∀ {rs ts s w} (t : Turn σ κ), t.work.id ≠ w.id → P rs ts s w → P rs (ts ++ [t]) s w

namespace Account

variable {P Q : List Submission → List (Turn σ κ) → Stage → Work → Prop}

theorem and (hP : Account p d₀ P) (hQ : Account p d₀ Q) :
    Account p d₀ fun rs ts s w => P rs ts s w ∧ Q rs ts s w where
  asked h hpath := ⟨hP.asked h hpath, hQ.asked h hpath⟩
  ready h hw hPQ hp hh := ⟨hP.ready h hw hPQ.1 hp hh, hQ.ready h hw hPQ.2 hp hh⟩
  later r h := ⟨hP.later r h.1, hQ.later r h.2⟩
  others t hne h := ⟨hP.others t hne h.1, hQ.others t hne h.2⟩

theorem holds (hP : Account p d₀ P) (h₀ : Unused p d₀) (h : Recorded p d₀ rs ts d) :
    (Placement.ofStage (P rs ts)).Holds d := by
  induction h with
  | start => exact h₀.holds _
  | @submit rs ts d r h _ ih =>
    have hold : (Placement.ofStage (P (rs ++ [r]) ts)).Holds d :=
      ih.mono fun s w _ hw => hP.later r hw
    refine hold.submitted fun path hpath => ?_
    rw [show d.nextId = rs.length from h.run.length h₀.tickets]
    exact hP.asked h hpath
  | @turn rs ts d d' s w h hw hs ih =>
    obtain ⟨d₁, w', r, hp, rfl⟩ := turn_cases hw hs
    have hb := h.run.balanced h₀.inBalance
    have hat : P rs ts s w := by
      have := ih.task s
      rw [hw] at this
      exact this
    have hrest : (Placement.ofStage (P rs (ts ++ [⟨d, s, w⟩]))).Holds (d.setTask s .idle) :=
      (ih.setTask (t := .idle) trivial).mono fun _ v hv hPv =>
        hP.others _ (hb.id_ne_of_mem hw hv).symm hPv
    refine hrest.turn hp fun hr hh => ?_
    subst hr
    exact hP.ready h hw hat hp hh
  | move _ m stay ih =>
    rcases m.cases_of_stay stay with ⟨a, ht, ha⟩ | hc
    · exact ih.step (Placement.carried_ofStage _) (fun he => absurd he (ha _)) ht
    · exact ih.congr hc.waiting hc.queues hc.tasks

theorem at_turn (hP : Account p d₀ P) (h₀ : Unused p d₀) (h : Recorded p d₀ rs ts d)
    {ts₁ ts₂ : List (Turn σ κ)} {t : Turn σ κ} (hts : ts = ts₁ ++ t :: ts₂) :
    ∃ rs₁, rs₁ <+: rs ∧ P rs₁ ts₁ t.stage t.work := by
  obtain ⟨rs₁, hrs, hrec, hw⟩ := h.at_turn hts
  have := (hP.holds h₀ hrec).task t.stage
  rw [hw] at this
  exact ⟨rs₁, hrs, this⟩

end Account

end FilePipeline.Dispatcher
