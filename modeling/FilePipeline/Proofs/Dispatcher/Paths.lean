import FilePipeline.Proofs.Dispatcher.Bracketed
import FilePipeline.Proofs.Stage.Paths

/-! # What becomes of paths

Over a backend that takes paths as the platform does, a path that is too long ends its work at once, and one
that the platform does not take ends it in its I/O turn, before anything is called. Every other path arrives
there unchanged: it is what the first call of that turn opens (`Recorded.paths`). -/

namespace FilePipeline.Dispatcher

open Backend (Call Observed)

variable {σ η κ : Type} {p : Setup σ η κ} {rs : List Submission} {id : WorkId} {r : Submission}

/-- What is said of work by its stage is true of all work that is held. -/
theorem Placement.Holds.of_worksOf {d : Dispatcher σ κ} {P : Stage → Work → Prop}
    (h : (Placement.ofStage P).Holds d) {k : Holder} {w : Work} (hw : w ∈ d.worksOf k) :
    ∃ s, P s w := by
  cases k with
  | submitters =>
    obtain ⟨x, hx, rfl⟩ := List.mem_map.mp hw
    exact ⟨_, h.waiting x hx⟩
  | queue s =>
    have hw : w ∈ (d.queues.get s).works := hw
    obtain ⟨e, hmem, hitem⟩ := List.mem_map.mp (Item.mem_works.mp hw)
    exact ⟨s, h.queued s e hmem w hitem⟩
  | worker s =>
    have hw : w ∈ (d.tasks.get s).works := hw
    have hat := h.task s
    cases ht : d.tasks.get s with
    | busy v =>
      rw [ht] at hw hat
      obtain rfl := List.mem_singleton.mp hw
      exact ⟨s, hat⟩
    | handing v =>
      rw [ht] at hw hat
      obtain rfl := List.mem_singleton.mp hw
      exact ⟨_, hat⟩
    | idle | relaying | leaving | gone =>
      rw [ht] at hw
      exact absurd hw List.not_mem_nil

section

variable {d₀ d : Dispatcher σ κ} {ts : List (Turn σ κ)}

theorem Recorded.asked_of_held (h₀ : Unused p d₀) (h : Recorded p d₀ rs ts d) {w : Work}
    (hw : w ∈ d.held) : ∃ r, rs[w.id]? = some r ∧ AskedFor p r w := by
  obtain ⟨k, hk⟩ := exists_of_mem_held hw
  obtain ⟨s, ho⟩ := (account_origin.holds h₀ h).of_worksOf hk
  exact ho.asked

/-- Work that ends was asked for, and has failed because of its path if that does not fit. -/
theorem endAccount_unfit (h₀ : Unused p d₀) : EndAccount p d₀ fun rs _ id o =>
    ∃ r, rs[id]? = some r ∧
      ∀ e, PathField.ofString? r.path = .error e → o.result = .error (.path e) where
  unfit := by
    intro rs ts d r e _ he
    refine ⟨r, by simp, fun e' he' => ?_⟩
    obtain rfl := Except.error.inj (he.symm.trans he')
    rfl
  turn := by
    intro rs ts d s w w' res h _ hends
    have hfits : ∀ {v : Work}, d.tasks.get s = .busy v → v.id = w'.id → ∃ r, rs[w'.id]? = some r ∧
        ∀ e, PathField.ofString? r.path = .error e → (w'.outcome res).result = .error (.path e) := by
      intro v hv hid
      obtain ⟨r, hr, path, hpath, -⟩ :=
        h.asked_of_held h₀ (mem_held (mem_worksOf_worker hv List.mem_cons_self))
      refine ⟨r, hid ▸ hr, fun e he => ?_⟩
      cases he.symm.trans hpath
    cases hends with
    | processed ht hp => exact hfits ht (sameAs_of_processing hp).id.symm
    | crashed ht hp => exact hfits ht (sameAs_of_processing hp).id.symm
  dropped := by
    intro rs ts d a w res h ha hends
    obtain ⟨s, ho, -⟩ := (account_origin.holds h₀ h).ended ha hends
    obtain ⟨r, hr, path, hpath, -⟩ := ho.asked
    refine ⟨r, hr, fun e he => ?_⟩
    cases he.symm.trans hpath
  later := by
    rintro rs ts id o r ⟨r', hr', h⟩
    exact ⟨r', (List.getElem?_append_left (List.getElem?_eq_some_iff.mp hr').1).trans hr', h⟩
  others := fun _ _ h => h

/-- Work whose path does not fit has ended as soon as it is asked for, and is never held or processed. -/
theorem Recorded.unfit (h₀ : Unused p d₀) (h : Recorded p d₀ rs ts d) (hr : rs[id]? = some r)
    {e : PathError} (he : PathField.ofString? r.path = .error e) :
    (∃ t, d.tickets[id]? = some t ∧ t.isDone = true ∧ t.result = .error (.path e)) ∧
      (∀ w ∈ d.held, w.id ≠ id) ∧ ∀ u ∈ ts, u.work.id ≠ id := by
  -- other work was asked for with a path that fits
  have hfits : ∀ {w : Work}, w.id = id → (∃ r, rs[w.id]? = some r ∧ AskedFor p r w) → False := by
    rintro w rfl ⟨r', hr', path, hpath, -⟩
    obtain rfl := Option.some.inj (hr.symm.trans hr')
    rw [he] at hpath
    cases hpath
  have hheld : ∀ w ∈ d.held, w.id ≠ id := fun w hw hid => hfits hid (h.asked_of_held h₀ hw)
  refine ⟨?_, hheld, fun u hu hid => hfits hid (h.origin h₀ hu).asked⟩
  have hlt : id < d.tickets.length := by
    rw [h.run.length h₀.tickets]
    exact (List.getElem?_eq_some_iff.mp hr).1
  obtain ⟨x, hx⟩ := (h.run.balanced h₀.inBalance).exists_place hlt
  cases x with
  | held k i =>
    obtain ⟨w, hw, hid⟩ := hx
    exact absurd hid (hheld w (mem_held (List.mem_of_getElem? hw)))
  | ended =>
    obtain ⟨t, ht, hd⟩ := hx
    obtain ⟨o, hshows, r', hr', hfails⟩ := (endAccount_unfit h₀).shows h₀ h ht hd
    obtain rfl := Option.some.inj (hr.symm.trans hr')
    exact ⟨t, ht, hd, hshows.result.trans (hfails e he)⟩

end

/-- The calls of a turn of the I/O worker at the work of a submission: none if its path is not taken, and
    otherwise the first of them opens that path. -/
inductive Delivers (r : Submission) : List (Call η) → Prop
  | untaken {e : PathError} (he : Untaken r.path e) : Delivers r []
  | taken {a : Attempt IoError η} {cs : List (Call η)} (hpath : ∀ e, ¬ Untaken r.path e) :
      Delivers r (.opens r.path (Stage.opening r.op) a :: cs)

variable {d₀ d : Dispatcher (Observed σ η) κ} {ts : List (Turn (Observed σ η) κ)}

/-! ### Over a backend that takes paths as the platform does -/

section

variable (hdefault : ∀ s path, p.backend.translate s path = Attempt.ofExcept (nativePath path))
  (h₀ : Unused p.observed d₀) (h : Recorded p.observed d₀ rs ts d)

include hdefault h₀ h

theorem Recorded.translate_eq {u : Turn (Observed σ η) κ} (hu : u ∈ ts)
    (hr : rs[u.work.id]? = some r) :
    p.backend.translate u.before.backend.state u.work.path.text =
      Attempt.ofExcept (nativePath r.path) := by
  rw [hdefault, ((h.origin h₀ hu).of_submission hr).text]

/-- The calls of a run open the paths that were submitted. -/
theorem Recorded.delivered :
    ∃ segs : List (List (Call η)), d.backend.calls = d₀.backend.calls ++ segs.flatten ∧
      List.Forall₂ (fun u cs => ∃ r, rs[u.work.id]? = some r ∧ Delivers r cs) (ioTurns ts) segs := by
  refine h.calls_eq fun u hu => ?_
  obtain ⟨hmem, hio⟩ := mem_ioTurns.mp hu
  obtain ⟨cs, hcalls, hbegins, -⟩ := calls_of_turn p hio
  obtain ⟨r, hr, ha⟩ := (h.origin h₀ hmem).asked
  have htranslate := h.translate_eq hdefault h₀ hmem hr
  refine ⟨cs, hcalls, r, hr, ?_⟩
  cases hbegins with
  | untaken ht =>
    have ht := htranslate.symm.trans ht
    obtain ⟨e, rfl⟩ := Attempt.fails_of_ofExcept ht
    exact .untaken (nativePath_eq_error_iff.mp (Attempt.ofExcept_eq_fail.mp ht))
  | taken ht =>
    obtain ⟨rfl, hnone⟩ :=
      nativePath_eq_ok_iff.mp (Attempt.ofExcept_eq_ok.mp (htranslate.symm.trans ht))
    rw [ha.op]
    exact .taken hnone

theorem Recorded.result_of_untaken {u : Turn (Observed σ η) κ} (hu : u ∈ ioTurns ts) {e : PathError}
    (hr : rs[u.work.id]? = some r) (he : Untaken r.path e) :
    u.result p.observed = Attempt.fail (.path e) := by
  obtain ⟨hmem, hio⟩ := mem_ioTurns.mp hu
  have ht := (h.translate_eq hdefault h₀ hmem hr).trans
    (Attempt.ofExcept_eq_fail.mpr (nativePath_eq_error_iff.mpr he))
  obtain ⟨d₁, s, w⟩ := u
  obtain rfl : s = .io := hio
  exact congrArg Processed.result (Stage.processIo_of_untaken (p := p.observed) ht)

theorem Recorded.shown_of_untaken {u : Turn (Observed σ η) κ} (hu : u ∈ ioTurns ts) {e : PathError}
    (hr : rs[u.work.id]? = some r) (he : Untaken r.path e) :
    ∃ t, d.tickets[u.work.id]? = some t ∧ t.isDone = true ∧ t.result = .error (.path e) := by
  have hres := h.result_of_untaken hdefault h₀ hu hr he
  have hend : u.readied p.observed = false := by
    unfold Turn.readied
    rw [hres]
    rfl
  have hverdict : u.verdict p.observed = .error (.path e) := by
    unfold Turn.verdict
    rw [hres]
    rfl
  obtain ⟨t, ht, hd, hshows, -⟩ := h.shown_of_turn h₀ (mem_ioTurns.mp hu).1 hend
  exact ⟨t, ht, hd, hshows.result.trans hverdict⟩

/-- How work ends whose path is not taken. -/
theorem Recorded.result_cases_of_untaken {e : PathError} {t : Ticket} (hr : rs[id]? = some r)
    (hfit : r.path.utf8ByteSize ≤ maxPathLength) (he : Untaken r.path e)
    (ht : d.tickets[id]? = some t) (hd : t.isDone = true) :
    t.result = .error (.path e) ∨ t.result = .error .abandoned ∨ ∃ u ∈ ts, u.stage = .compression ∧
      u.work.id = id ∧ ∃ f, u.result p.observed = Attempt.fail f ∧ t.result = .error f := by
  obtain ⟨o, hshows, hend⟩ := h.ending h₀ ht hd
  have hres : t.result = o.result := hshows.result
  rw [hres]
  cases hend with
  | unfit hr' he' =>
    obtain rfl := Option.some.inj (hr.symm.trans hr')
    exact absurd hfit (Nat.not_le.mpr (ofString?_eq_error_iff.mp he').1)
  | crashed | dropped => exact Or.inr (Or.inl rfl)
  | @turn u res hu hid hturn hh =>
    subst hid
    cases res with
    | ok x =>
      -- work that ends well has had an I/O turn that went well
      have hno : ∀ x ∈ ioTurns ts, x.work.id = u.work.id → x.result p.observed ≠ .ok () := by
        intro x hx hid hok
        have hfails := h.result_of_untaken hdefault h₀ hx (by rw [hid]; exact hr) he
        cases hok.symm.trans hfails
      rcases h.stage_of_last h₀ hu (hh rfl) with hio | ⟨-, -, x, hx, hon⟩
      · exact absurd hturn (hno u (mem_ioTurns.mpr ⟨hu, hio⟩) rfl)
      · exact absurd (Turn.readied_iff.mp hon.readied).1 (hno x hx hon.sameAs.id.symm)
    | error f =>
      cases hs : u.stage with
      | io =>
        have hfails := h.result_of_untaken hdefault h₀ (mem_ioTurns.mpr ⟨hu, hs⟩) hr he
        cases hturn.symm.trans hfails
        exact Or.inl rfl
      | compression => exact Or.inr (Or.inr ⟨u, hu, hs, rfl, f, hturn, rfl⟩)

/-- Work does not fail because of its path if that is taken. -/
theorem Recorded.result_ne_path {e : PathError} {t : Ticket} (hr : rs[id]? = some r)
    (hfit : r.path.utf8ByteSize ≤ maxPathLength) (hnone : ∀ e, ¬ Untaken r.path e)
    (ht : d.tickets[id]? = some t) (hd : t.isDone = true) : t.result ≠ .error (.path e) := by
  intro hfails
  obtain ⟨o, hshows, hend⟩ := h.ending h₀ ht hd
  have hres : o.result = .error (.path e) := hshows.result.symm.trans hfails
  cases hend with
  | unfit hr' he' =>
    obtain rfl := Option.some.inj (hr.symm.trans hr')
    exact absurd hfit (Nat.not_le.mpr (ofString?_eq_error_iff.mp he').1)
  | crashed | dropped => cases hres
  | @turn u res hu hid hturn hh =>
    subst hid
    obtain rfl : res = .error (.path e) := hres
    have htranslate := h.translate_eq hdefault h₀ hu hr
    obtain ⟨d₁, s, w⟩ := u
    cases s with
    | io =>
      have ht : p.backend.translate d₁.backend.state w.path.text = Attempt.fail e :=
        Stage.untaken_of_processIo (p := p.observed) hturn
      exact hnone e (nativePath_eq_error_iff.mp (Attempt.ofExcept_eq_fail.mp (htranslate.symm.trans ht)))
    | compression => exact (Stage.raises_processCompression hturn).elim

end

/-- What becomes of paths in a run with the submissions `rs` and the turns `ts`. -/
structure Paths (p : Setup σ η κ) (d₀ d : Dispatcher (Observed σ η) κ) (rs : List Submission)
    (ts : List (Turn (Observed σ η) κ)) : Prop where
  /-- The calls of the run are those of the turns of the I/O worker, one after the other. -/
  delivered : ∃ segs : List (List (Call η)), d.backend.calls = d₀.backend.calls ++ segs.flatten ∧
    List.Forall₂ (fun u cs => ∃ r, rs[u.work.id]? = some r ∧ Delivers r cs) (ioTurns ts) segs
  /-- Work whose path is too long has failed from its submission on. Nobody ever holds it. -/
  tooLong : ∀ {id : WorkId} {r : Submission}, rs[id]? = some r → maxPathLength < r.path.utf8ByteSize →
    (∃ t, d.tickets[id]? = some t ∧ t.isDone = true ∧
      t.result = .error (.path (.tooLong r.path.utf8ByteSize maxPathLength))) ∧
    (∀ w ∈ d.held, w.id ≠ id) ∧ ∀ u ∈ ts, u.work.id ≠ id
  /-- Work whose path is not taken has failed with the reason after its I/O turn. -/
  turnedDown : ∀ u ∈ ioTurns ts, ∀ r e, rs[u.work.id]? = some r → Untaken r.path e →
    ∃ t, d.tickets[u.work.id]? = some t ∧ t.isDone = true ∧ t.result = .error (.path e)
  /-- If it has ended otherwise, it was abandoned or has failed in the compression stage. -/
  untaken : ∀ {id : WorkId} {r : Submission} {e : PathError} {t : Ticket}, rs[id]? = some r →
    r.path.utf8ByteSize ≤ maxPathLength → Untaken r.path e → d.tickets[id]? = some t → t.isDone = true →
    t.result = .error (.path e) ∨ t.result = .error .abandoned ∨ ∃ u ∈ ts, u.stage = .compression ∧
      u.work.id = id ∧ ∃ f, u.result p.observed = Attempt.fail f ∧ t.result = .error f
  /-- No other work fails because of its path. -/
  taken : ∀ {id : WorkId} {r : Submission} {e : PathError} {t : Ticket}, rs[id]? = some r →
    r.path.utf8ByteSize ≤ maxPathLength → (∀ e, ¬ Untaken r.path e) → d.tickets[id]? = some t →
    t.isDone = true → t.result ≠ .error (.path e)
  /-- When the dispatcher comes to rest, all work has ended. -/
  ended : Resting p.observed d → ∀ id < rs.length, ∃ t, d.tickets[id]? = some t ∧ t.isDone = true

/-- The paths of every run, whatever the backend, the codec and the heaps do. -/
theorem Recorded.paths
    (hdefault : ∀ s path, p.backend.translate s path = Attempt.ofExcept (nativePath path))
    (h₀ : Fresh p.observed d₀) (h : Recorded p.observed d₀ rs ts d) : Paths p d₀ d rs ts where
  delivered := h.delivered hdefault h₀.unused
  tooLong hr hlong := h.unfit h₀.unused hr (ofString?_eq_error_iff.mpr ⟨hlong, rfl⟩)
  turnedDown _ hu _ _ hr he := h.shown_of_untaken hdefault h₀.unused hu hr he
  untaken hr hfit he ht hd := h.result_cases_of_untaken hdefault h₀.unused hr hfit he ht hd
  taken hr hfit hnone ht hd := h.result_ne_path hdefault h₀.unused hr hfit hnone ht hd
  ended hrest := (h.at_rest h₀.unused hrest).ended

/-- A write whose path has a zero byte, and a read of a file that is not there. -/
def strangeSubmissions : List Submission := [.write "a\x00b" [7] false, .read "é" 0 false false]

/-- The write fails without a call, and the read opens the path it was asked for. -/
theorem paths_of_strange_submissions : ∃ d₀ d ts, Fresh (scriptedSetup 2 {}).observed d₀ ∧
    Recorded (scriptedSetup 2 {}).observed d₀ strangeSubmissions ts d ∧
    Paths (scriptedSetup 2 {}) d₀ d strangeSubmissions ts ∧
    d.backend.calls = [.opens "é" .sharedRead (Attempt.fail (.os 2))] ∧
    (d.done? 0).map Ticket.result = some (.error (.path (.interiorZero 1))) := by
  let cues : List Cue := [.submit (.write "a\x00b" [7] false), .act (.push 0),
    .submit (.read "é" 0 false false), .act (.push 0), .act (.pop .io), .act (.process .io),
    .act (.pop .io), .act (.process .io)]
  have h : ((observed? 2 {} {}).bind (replay (scriptedSetup 2 {}).observed cues)).any
      (fun d => d.backend.calls = [.opens "é" .sharedRead (Attempt.fail (.os 2))] ∧
        (d.done? 0).map Ticket.result = some (.error (.path (.interiorZero 1)))) = true := by
    decide +kernel
  obtain ⟨d₀, h₀⟩ : ∃ d₀, observed? 2 {} {} = some d₀ := ⟨_, rfl⟩
  obtain ⟨d, hr, hend⟩ := Option.any_eq_true _ _ |>.mp h
  rw [h₀] at hr
  have hr : replay (scriptedSetup 2 {}).observed cues d₀ = some d := hr
  obtain ⟨hcalls, hresult⟩ := of_decide_eq_true hend
  have hfresh : Fresh (scriptedSetup 2 {}).observed d₀ := fresh_of_start h₀
  obtain ⟨ts, hrec⟩ := (run_of_replay hr).recorded
  exact ⟨d₀, d, ts, hfresh, hrec, hrec.paths (fun _ _ => rfl) hfresh, hcalls, hresult⟩

end FilePipeline.Dispatcher
