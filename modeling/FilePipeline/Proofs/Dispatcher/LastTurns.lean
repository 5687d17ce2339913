import FilePipeline.Proofs.Dispatcher.WriteEffect

/-! # The last turn of a piece of work

A piece of work has at most one turn at each stage: it is held as its last turn has left it, and each turn
it has had handed it on to where it is now (`account_as_left`). So the ticket of work that has ended shows
what its last turn has made of it, or what was submitted if it never had one (`Recorded.last_turn`), and
nothing but the result tells whether it ended in that turn or was dropped later. -/

namespace FilePipeline.Dispatcher

variable {σ η κ : Type} {p : Setup σ η κ} {d d' d₀ : Dispatcher σ κ} {rs : List Submission}
  {ts : List (Turn σ κ)} {s : Stage} {w : Work} {id : WorkId} {o : Outcome}

/-! ### Work that has not ended -/

/-- Each turn that the work has had handed it on to where it is now. -/
def Handed (p : Setup σ η κ) (ts : List (Turn σ κ)) (s : Stage) (w : Work) : Prop :=
  ∀ t ∈ ts, t.work.id = w.id → t.HandsOn p s w

theorem account_handed (h₀ : Unused p d₀) : Account p d₀ fun _ ts => Handed p ts where
  asked := by
    intro rs ts d r path h _ t ht he
    have hlt := h.id_lt h₀ ht
    cases r <;> exact absurd he (Nat.ne_of_lt hlt)
  ready := by
    intro rs ts d s w w' d₁ _ hw hP hp hh t ht he
    have hready : (⟨d, s, w⟩ : Turn σ κ).readied p = true := by
      rw [Turn.readied_iff, Turn.result_eq (t := ⟨d, s, w⟩) hp, Turn.after_eq (t := ⟨d, s, w⟩) hp]
      exact ⟨rfl, hh⟩
    rcases List.mem_append.mp ht with ht | ht
    · have hon : t.HandsOn p s w := hP t ht (he.trans (sameAs_of_processing hp).id)
      cases hready.symm.trans (Turn.HandsOn.not_readied (u := ⟨d, s, w⟩) hon)
    · obtain rfl := List.mem_singleton.mp ht
      exact ⟨rfl, hready, by rw [Turn.after_eq (t := ⟨d, s, w⟩) hp]⟩
  later _ h := h
  others := by
    intro rs ts s w u hne hP t ht he
    rcases List.mem_append.mp ht with ht | ht
    · exact hP t ht he
    · obtain rfl := List.mem_singleton.mp ht
      exact absurd he hne

/-- Work as the turns so far have left it. -/
def AsLeft (p : Setup σ η κ) (rs : List Submission) (ts : List (Turn σ κ)) (s : Stage) (w : Work) :
    Prop :=
  Origin p rs ts s w ∧ Handed p ts s w

/-- It has come from its only turn, or had none yet and is as it was submitted. -/
theorem AsLeft.cases (h : AsLeft p rs ts s w) :
    (AsSubmitted p rs s w ∧ ∀ t ∈ ts, t.work.id ≠ w.id) ∨ ∃ t ∈ ts, t.HandsOn p s w := by
  by_cases hno : ∃ t ∈ ts, t.work.id = w.id
  · obtain ⟨t, ht, hid⟩ := hno
    exact Or.inr ⟨t, ht, h.2 t ht hid⟩
  · rcases h.1 with ho | ⟨t, ht, hon, -⟩
    · exact Or.inl ⟨ho, fun t ht hid => hno ⟨t, ht, hid⟩⟩
    · exact Or.inr ⟨t, ht, hon⟩

theorem account_as_left (h₀ : Unused p d₀) : Account p d₀ (AsLeft p) :=
  account_origin.and (account_handed h₀)

theorem Recorded.same_work (h₀ : Unused p d₀) (h : Recorded p d₀ rs ts d) {t u : Turn σ κ}
    (ht : t ∈ ts) (hu : u ∈ ts) (hid : t.work.id = u.work.id) :
    t = u ∨ t.HandsOn p u.stage u.work ∨ u.HandsOn p t.stage t.work := by
  obtain ⟨ts₁, ts₂, rfl⟩ := List.append_of_mem hu
  rcases List.mem_append.mp ht with ht | ht
  · obtain ⟨-, -, hP⟩ := (account_handed h₀).at_turn h₀ h rfl
    exact Or.inr (Or.inl (hP t ht hid))
  · rcases List.mem_cons.mp ht with rfl | ht
    · exact Or.inl rfl
    · obtain ⟨us, us', rfl⟩ := List.append_of_mem ht
      have hts : ts₁ ++ u :: (us ++ t :: us') = (ts₁ ++ u :: us) ++ t :: us' := by simp
      obtain ⟨-, -, hP⟩ := (account_handed h₀).at_turn h₀ h hts
      exact Or.inr (Or.inr (hP u (by simp) hid.symm))

theorem Recorded.before_last (h₀ : Unused p d₀) (h : Recorded p d₀ rs ts d) {t u : Turn σ κ}
    (ht : t ∈ ts) (hu : u ∈ ts) (hid : t.work.id = u.work.id) (hr : u.readied p = false) :
    t = u ∨ t.HandsOn p u.stage u.work := by
  rcases h.same_work h₀ ht hu hid with he | hon | hon
  · exact Or.inl he
  · exact Or.inr hon
  · cases hr.symm.trans hon.readied

/-- What is said of work by its stage is true of the work that ends between two turns. -/
theorem Placement.Holds.ended {P : Stage → Work → Prop} (h : (Placement.ofStage P).Holds d)
    {a : Action} {r : Except WorkError Unit} (ha : ∀ s, a ≠ .process s) (he : EndsIn p d a w r) :
    ∃ s, P s w ∧ r = .error .abandoned := by
  have queued : ∀ {s : Stage}, w ∈ (d.queues.get s).works → P s w := by
    intro s hw
    obtain ⟨e, hmem, hitem⟩ := List.mem_map.mp (Item.mem_works.mp hw)
    exact h.queued s e hmem w hitem
  cases he with
  | turnedAway hw => exact ⟨_, h.waiting _ (List.mem_of_getElem? hw), rfl⟩
  | processed | crashed => exact absurd rfl (ha _)
  | @refused s w ht =>
    have hat := h.task s
    rw [ht] at hat
    exact ⟨_, hat, rfl⟩
  | left _ hw => exact ⟨_, queued hw, rfl⟩
  | closed _ hw => exact ⟨_, queued hw, rfl⟩

/-! ### Work that has ended -/

/-- The ways in which the work with a number has ended, with the outcome its ticket shows. -/
inductive LastTurn (p : Setup σ η κ) (rs : List Submission) (ts : List (Turn σ κ)) (id : WorkId) :
    Outcome → Prop
  | none {r : Submission} {e : WorkError} (hr : rs[id]? = some r) (hno : ∀ t ∈ ts, t.work.id ≠ id) :
      LastTurn p rs ts id ((Work.ofSubmission id p.ownHeap r).outcome (.error e))
  | ended {u : Turn σ κ} (hu : u ∈ ts) (hid : u.work.id = id) (hr : u.readied p = false) :
      LastTurn p rs ts id ((u.after p).outcome (u.verdict p))
  | dropped {u : Turn σ κ} (hu : u ∈ ts) (hid : u.work.id = id) (hr : u.readied p = true)
      (honly : ∀ t ∈ ts, t.work.id = id → t = u) :
      LastTurn p rs ts id ((u.after p).outcome (.error .abandoned))

/-- Work that ends in a turn. -/
theorem LastTurn.of_endsIn {w' : Work} {r : Except WorkError Unit} (hw : d.tasks.get s = .busy w)
    (he : EndsIn p d (.process s) w' r) :
    LastTurn p rs (ts ++ [⟨d, s, w⟩]) w'.id (w'.outcome r) := by
  have hmem : (⟨d, s, w⟩ : Turn σ κ) ∈ ts ++ [⟨d, s, w⟩] := List.mem_append_right _ List.mem_cons_self
  have hat : ∀ {v : Work}, d.tasks.get s = .busy v → v = w := fun hv =>
    (Task.busy.inj (hw.symm.trans hv)).symm
  have hend : ∀ {d₁ : Dispatcher σ κ} {res : Attempt WorkError Unit},
      d.processing p s w = (d₁, w', res) → (res = .ok () → handsOn s w' = false) →
      LastTurn p rs (ts ++ [⟨d, s, w⟩]) w'.id (w'.outcome (Turn.verdict p ⟨d, s, w⟩)) := by
    intro d₁ res hp hh
    have hafter := Turn.after_eq (t := ⟨d, s, w⟩) hp
    have hnot : (⟨d, s, w⟩ : Turn σ κ).readied p = false := by
      by_contra hready
      obtain ⟨hok, hon⟩ := Turn.readied_iff.mp (eq_true_of_ne_false hready)
      rw [Turn.result_eq (t := ⟨d, s, w⟩) hp] at hok
      rw [hafter, hh hok] at hon
      cases hon
    have hlast : LastTurn p rs (ts ++ [⟨d, s, w⟩]) w'.id
        ((Turn.after p ⟨d, s, w⟩).outcome (Turn.verdict p ⟨d, s, w⟩)) :=
      .ended hmem (sameAs_of_processing hp).id.symm hnot
    rwa [hafter] at hlast
  cases he with
  | @processed s v w' d₁ r ht hp hh =>
    obtain rfl := hat ht
    have hv : Turn.verdict p ⟨d, s, v⟩ = r := by
      unfold Turn.verdict
      rw [Turn.result_eq (t := ⟨d, s, v⟩) hp]
      cases r <;> rfl
    have hlast := hend hp fun hok => hh (by cases r with | ok u => rfl | error e => cases hok)
    rwa [hv] at hlast
  | @crashed s v w' d₁ c ht hp =>
    obtain rfl := hat ht
    have hv : Turn.verdict p ⟨d, s, v⟩ = .error .abandoned := by
      unfold Turn.verdict
      rw [Turn.result_eq (t := ⟨d, s, v⟩) hp]
      rfl
    have hlast := hend hp fun hok => by cases hok
    rwa [hv] at hlast

/-- Work that is dropped between two turns. -/
theorem LastTurn.of_left (h₀ : Unused p d₀) (h : Recorded p d₀ rs ts d) (hleft : AsLeft p rs ts s w) :
    LastTurn p rs ts w.id (w.outcome (.error .abandoned)) := by
  rcases hleft.cases with ⟨⟨r, path, hr, -, -, hwork⟩, hno⟩ | ⟨u, hu, hon⟩
  · have ho : w.outcome (.error .abandoned) =
        (Work.ofSubmission w.id p.ownHeap r).outcome (.error .abandoned) := by
      rw [hwork]
      cases r <;> rfl
    rw [ho]
    exact .none hr hno
  · have hid : u.work.id = w.id := hon.sameAs.id.symm
    have honly : ∀ t ∈ ts, t.work.id = w.id → t = u := by
      intro t ht hidt
      have hready := (hleft.2 t ht hidt).readied
      rcases h.same_work h₀ ht hu (hidt.trans hid.symm) with he | he | he
      · exact he
      · cases hon.readied.symm.trans he.not_readied
      · cases hready.symm.trans he.not_readied
    have hlast : LastTurn p rs ts w.id ((u.after p).outcome (.error .abandoned)) :=
      .dropped hu hid hon.readied honly
    rwa [← hon.work] at hlast

theorem endAccount_lastTurn (h₀ : Unused p d₀) : EndAccount p d₀ (LastTurn p) where
  unfit h _ := .none (by simp) fun t ht => Nat.ne_of_lt (h.id_lt h₀ ht)
  turn _ hw he := .of_endsIn hw he
  dropped := by
    intro rs ts d a w r h ha he
    obtain ⟨s, hP, rfl⟩ := ((account_as_left h₀).holds h₀ h).ended ha he
    exact .of_left h₀ h hP
  later := by
    intro rs ts id o r h
    cases h with
    | none hr hno =>
      exact .none ((List.getElem?_append_left (List.getElem?_eq_some_iff.mp hr).1).trans hr) hno
    | ended hu hid hr => exact .ended hu hid hr
    | dropped hu hid hr honly => exact .dropped hu hid hr honly
  others := by
    intro rs ts id o t hne h
    have old : ∀ {Q : Turn σ κ → Prop}, (∀ u ∈ ts, u.work.id = id → Q u) →
        ∀ u ∈ ts ++ [t], u.work.id = id → Q u := by
      intro Q hQ u hu hid
      rcases List.mem_append.mp hu with hu | hu
      · exact hQ u hu hid
      · obtain rfl := List.mem_singleton.mp hu
        exact absurd hid hne
    cases h with
    | none hr hno => exact .none hr fun u hu hid => old (Q := fun _ => False) hno u hu hid
    | ended hu hid hr => exact .ended (List.mem_append_left _ hu) hid hr
    | dropped hu hid hr honly => exact .dropped (List.mem_append_left _ hu) hid hr (old honly)

theorem Recorded.last_turn (h₀ : Unused p d₀) (h : Recorded p d₀ rs ts d) {t : Ticket}
    (ht : d.tickets[id]? = some t) (hd : t.isDone = true) :
    ∃ o, t.Shows o ∧ LastTurn p rs ts id o :=
  (endAccount_lastTurn h₀).shows h₀ h ht hd

end FilePipeline.Dispatcher
