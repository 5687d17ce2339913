import FilePipeline.Proofs.Dispatcher.Origins
import FilePipeline.Proofs.Dispatcher.Shutdown

/-! # A piece of work that is alone on its file

`Alone` is a stretch of a run that begins with a submission and in which all other work in flight is on
other files. Then nobody else's turn changes the file of that submission: a read finds it as it was at
the submission and leaves it so (`Alone.steady`), and what a write leaves there stays (`Alone.left`).

Work whose turns go well succeeds, if no worker crashes (`Recorded.result_ok`), and it comes to its end
in any case (`Recorded.ends`). -/

namespace FilePipeline.Dispatcher

open Backend (Honest)
open Stage (fileOf)

variable {σ η κ ν : Type} {p : Setup σ η κ} {v : View σ η ν} {d d' d₀ : Dispatcher σ κ}
  {rs rs' : List Submission} {ts ts' : List (Turn σ κ)} {r : Submission}

/-! ### Files that are left alone -/

theorem contents_effect (hb : p.backend.Honest v) (t : Turn σ κ) {s : σ} (hs : v.sound s) {f : ν}
    (hf : t.stage = .io → t.work.op = .write → fileOf v t.work ≠ f) :
    v.contents (t.effect p s) f = v.contents s f := by
  unfold Turn.effect
  cases hst : t.stage with
  | compression => rfl
  | io =>
    cases hop : t.work.op with
    | read => exact congrFun (Stage.processIo_read_spec _ hb hs hop).contents f
    | write => exact (Stage.processIo_write_spec _ hb hs hop).others f (hf hst hop).symm

theorem contents_effects (hb : p.backend.Honest v) {s : σ} (hs : v.sound s) {f : ν}
    (hf : ∀ t ∈ ts, t.stage = .io → t.work.op = .write → fileOf v t.work ≠ f) :
    v.contents (effects p ts s) f = v.contents s f := by
  unfold effects
  induction ts generalizing s with
  | nil => rfl
  | cons t ts ih =>
    have hrest := ih (sound_effect hb t hs) fun u hu => hf u (List.mem_cons_of_mem _ hu)
    exact hrest.trans (contents_effect hb t hs (hf t List.mem_cons_self))

theorem Recorded.contents_since (hb : p.backend.Honest v) (hs : v.sound d₀.backend) {f : ν}
    {ts₁ ts₂ : List (Turn σ κ)} {u : Turn σ κ} (h : Recorded p d₀ rs (ts₁ ++ u :: ts₂) d)
    (hquiet : ∀ x ∈ ts₂, x.stage = .io → x.work.op = .write → fileOf v x.work ≠ f) :
    v.contents d.backend f = v.contents (u.effect p u.before.backend) f := by
  have hsound := h.sound_at hb hs (List.mem_append_right ts₁ List.mem_cons_self)
  have hend : d.backend = effects p ts₂ (u.effect p u.before.backend) := by
    rw [h.backend_eq, h.backend_at rfl]
    unfold effects
    rw [List.foldl_append, List.foldl_cons]
  rw [hend]
  exact contents_effects hb (sound_effect hb u hsound) hquiet

theorem Recorded.contents_until (hb : p.backend.Honest v) (hs : v.sound d₀.backend) {f : ν}
    {ts₁ ts₂ ts₃ : List (Turn σ κ)} {u t : Turn σ κ}
    (h : Recorded p d₀ rs (ts₁ ++ u :: (ts₂ ++ t :: ts₃)) d)
    (hquiet : ∀ x ∈ ts₂, x.stage = .io → x.work.op = .write → fileOf v x.work ≠ f) :
    v.contents t.before.backend f = v.contents (u.effect p u.before.backend) f := by
  have hts : ts₁ ++ u :: (ts₂ ++ t :: ts₃) = (ts₁ ++ u :: ts₂) ++ t :: ts₃ := by simp
  obtain ⟨rs₁, -, hrec, -⟩ := h.at_turn hts
  exact hrec.contents_since hb hs hquiet

/-! ### Alone on a file -/

/-- The submission `r`, made in the state `d` after the submissions `rs` and the turns `ts`, is alone on
    its file until the state `d'`, where `rs'` and `ts'` have come to it. -/
structure Alone (p : Setup σ η κ) (v : View σ η ν) (d₀ : Dispatcher σ κ) (rs : List Submission)
    (ts : List (Turn σ κ)) (d : Dispatcher σ κ) (r : Submission) (rs' : List Submission)
    (ts' : List (Turn σ κ)) (d' : Dispatcher σ κ) : Prop where
  before : Recorded p d₀ rs ts d
  running : d.halt = .running
  after : Recorded p (d.submit p r) rs' ts' d'
  /-- What had not ended when it was submitted is on other files, -/
  clear : ∀ (id : WorkId) (r' : Submission) (t : Ticket), rs[id]? = some r' →
    d.tickets[id]? = some t → t.isDone = false → v.file r'.path ≠ v.file r.path
  /-- and so is what was submitted later. -/
  others : ∀ r' ∈ rs', v.file r'.path ≠ v.file r.path

theorem getElem?_submission (rs : List Submission) (r : Submission) (rs' : List Submission) :
    (rs ++ r :: rs')[rs.length]? = some r := by
  rw [List.getElem?_append_right (Nat.le_refl _), Nat.sub_self]
  rfl

namespace Alone

theorem recorded (h : Alone p v d₀ rs ts d r rs' ts' d') :
    Recorded p d₀ (rs ++ r :: rs') (ts ++ ts') d' := by
  rw [List.append_cons]
  exact (h.before.submit r h.running).trans h.after

theorem mem_of_id (h : Alone p v d₀ rs ts d r rs' ts' d') (h₀ : Unused p d₀) {t : Turn σ κ}
    (ht : t ∈ ts ++ ts') (hid : t.work.id = rs.length) : t ∈ ts' := by
  rcases List.mem_append.mp ht with ht | ht
  · exact absurd hid (Nat.ne_of_lt (h.before.id_lt h₀ ht))
  · exact ht

theorem backend_at (h : Alone p v d₀ rs ts d r rs' ts' d') {us us' : List (Turn σ κ)}
    {t : Turn σ κ} (ht : ts' = us ++ t :: us') : t.before.backend = effects p us d.backend := by
  rw [h.after.backend_at ht, backend_submit]

/-- Up to one of the later turns it is alone as well. -/
theorem cut (h : Alone p v d₀ rs ts d r rs' ts' d') {t : Turn σ κ} (ht : t ∈ ts') :
    ∃ rs₁ ts₁, Alone p v d₀ rs ts d r rs₁ ts₁ t.before ∧
      t.before.tasks.get t.stage = .busy t.work := by
  obtain ⟨us, us', rfl⟩ := List.append_of_mem ht
  obtain ⟨rs₁, hrs, hrec, hw⟩ := h.after.at_turn rfl
  exact ⟨rs₁, us, ⟨h.before, h.running, hrec, h.clear, fun r' hr' => h.others r' (hrs.subset hr')⟩,
    hw⟩

/-- All other work that has not ended is on other files. -/
theorem clear_after (h : Alone p v d₀ rs ts d r rs' ts' d') (h₀ : Unused p d₀) {id : WorkId}
    {r' : Submission} {t : Ticket} (hr' : (rs ++ r :: rs')[id]? = some r') (hne : id ≠ rs.length)
    (ht : d'.tickets[id]? = some t) (hp : t.isDone = false) : v.file r'.path ≠ v.file r.path := by
  rcases Nat.lt_or_gt_of_ne hne with hlt | hgt
  · rw [List.getElem?_append_left hlt] at hr'
    have hlt' : id < d.tickets.length := by
      rw [h.before.run.length h₀.tickets]
      exact hlt
    refine h.clear id r' _ hr' (List.getElem?_eq_getElem hlt') ?_
    by_contra hd
    have hd : d.tickets[id].isDone = true := by simpa using hd
    have hrun : Run p d ([] ++ [r] ++ rs') d' := (Run.start.submit r h.running).trans h.after.run
    obtain ⟨u, hu, hk⟩ := hrun.kept (List.getElem?_eq_getElem hlt') hd
    obtain rfl : t = u := Option.some.inj (ht.symm.trans hu)
    rw [hk.isDone hd] at hp
    cases hp
  · rw [List.getElem?_append_right (Nat.le_of_lt hgt)] at hr'
    obtain ⟨n, rfl⟩ := Nat.exists_eq_add_of_lt hgt
    rw [Nat.add_assoc, Nat.add_sub_cancel_left] at hr'
    exact h.others r' (List.mem_of_getElem? (l := rs') hr')

/-- Once the work submitted has ended, what comes next on its file is alone again. -/
theorem next (h : Alone p v d₀ rs ts d r rs' ts' d') (h₀ : Unused p d₀) {t : Ticket}
    (ht : d'.tickets[rs.length]? = some t) (hd : t.isDone = true) {q : Submission}
    (hq : v.file q.path = v.file r.path) (running : d'.halt = .running) {rs'' : List Submission}
    {ts'' : List (Turn σ κ)} {d'' : Dispatcher σ κ} (after : Recorded p (d'.submit p q) rs'' ts'' d'')
    (others : ∀ r' ∈ rs'', v.file r'.path ≠ v.file r.path) :
    Alone p v d₀ (rs ++ r :: rs') (ts ++ ts') d' q rs'' ts'' d'' := by
  refine ⟨h.recorded, running, after, fun id r' u hr' hu hp => ?_, by rw [hq]; exact others⟩
  rw [hq]
  refine h.clear_after h₀ hr' (fun he => ?_) hu hp
  rw [he, ht] at hu
  obtain rfl : t = u := Option.some.inj hu
  rw [hd] at hp
  cases hp

theorem told (h₀ : Unused p d₀) (hb : p.backend.Honest v) (hs : v.sound d₀.backend)
    (hc : p.codec.Pure) (h : Alone p v d₀ rs ts d r rs' ts' d') {t : Turn σ κ} (ht : t ∈ ts ++ ts')
    (hid : t.work.id = rs.length) (k : κ) :
    AskedFor p r t.work ∧ Bears p v k (ts ++ ts') r t.stage t.work := by
  refine (h.recorded.told hb hc hs h₀ ht k).of_submission ?_
  rw [hid, getElem?_submission]

theorem asked (h₀ : Unused p d₀) (h : Alone p v d₀ rs ts d r rs' ts' d') {t : Turn σ κ}
    (ht : t ∈ ts ++ ts') (hid : t.work.id = rs.length) : AskedFor p r t.work := by
  refine (h.recorded.origin h₀ ht).of_submission ?_
  rw [hid, getElem?_submission]

theorem file_ne (h₀ : Unused p d₀) (h : Alone p v d₀ rs ts d r rs' ts' d') {t : Turn σ κ}
    (ht : t ∈ ts') (hne : t.work.id ≠ rs.length) : fileOf v t.work ≠ v.file r.path := by
  obtain ⟨rs₁, ts₁, hcut, hw⟩ := h.cut ht
  have horigin := (account_origin.holds h₀ hcut.recorded).task t.stage
  rw [hw] at horigin
  obtain ⟨r', hr', ha⟩ := Origin.asked horigin
  obtain ⟨u, hu, hp, -⟩ := (hcut.recorded.run.balanced h₀.inBalance).pending_of_mem
    (mem_held (mem_worksOf_worker hw List.mem_cons_self))
  rw [ha.fileOf]
  exact hcut.clear_after h₀ hr' hne hu hp

section

variable (h₀ : Unused p d₀) (hb : p.backend.Honest v) (hs : v.sound d₀.backend)

include h₀ hb hs

/-- The file of a read stays as it is. -/
theorem steady (h : Alone p v d₀ rs ts d r rs' ts' d') (hop : r.op = .read) :
    v.contents d'.backend (v.file r.path) = v.contents d.backend (v.file r.path) ∧
      ∀ t ∈ ts', v.contents t.before.backend (v.file r.path) =
        v.contents d.backend (v.file r.path) := by
  have hsound := h.before.sound hb hs
  have quiet : ∀ t ∈ ts', t.stage = .io → t.work.op = .write →
      fileOf v t.work ≠ v.file r.path := by
    intro t ht _ hw
    by_cases hid : t.work.id = rs.length
    · rw [(h.asked h₀ (List.mem_append_right ts ht) hid).op, hop] at hw
      cases hw
    · exact h.file_ne h₀ ht hid
  constructor
  · rw [h.after.backend_eq, backend_submit]
    exact contents_effects hb hsound quiet
  · intro t ht
    obtain ⟨us, us', rfl⟩ := List.append_of_mem ht
    rw [h.backend_at rfl]
    exact contents_effects hb hsound fun u hu => quiet u (List.mem_append_left _ hu)

/-- The file is as the I/O turn of the work has left it. -/
theorem left (h : Alone p v d₀ rs ts d r rs' ts' d') {u : Turn σ κ}
    (hu : u ∈ ioTurns (ts ++ ts')) (hid : u.work.id = rs.length) :
    v.contents d'.backend (v.file r.path) =
      v.contents (u.effect p u.before.backend) (v.file r.path) := by
  obtain ⟨hmem, hio⟩ := mem_ioTurns.mp hu
  obtain ⟨us, us', rfl⟩ := List.append_of_mem (h.mem_of_id h₀ hmem hid)
  have hrec := h.recorded
  rw [← List.append_assoc] at hrec
  refine hrec.contents_since hb hs fun t ht hst _ => ?_
  -- the turns after it are not its own
  have hne : t.work.id ≠ rs.length := hid ▸ hrec.id_ne_of_later h₀ hio ht hst
  exact h.file_ne h₀ (List.mem_append_right _ (List.mem_cons_of_mem _ ht)) hne

end

end Alone

/-! ### Success -/

/-- Work whose path fits and whose turns go well succeeds, if no worker crashes. -/
theorem Recorded.result_ok (h₀ : Unused p d₀) (h : Recorded p d₀ rs ts d) {id : WorkId}
    (hr : rs[id]? = some r) (hfit : ∃ path, PathField.ofString? r.path = .ok path)
    (hcalm : ∀ t ∈ ts, t.crashed p = false) (hok : ∀ t ∈ ts, t.work.id = id → t.result p = .ok ())
    {t : Ticket} (ht : d.tickets[id]? = some t) (hd : t.isDone = true) : t.result = .ok () := by
  obtain ⟨o, hshows, hend⟩ := h.ending h₀ ht hd
  have hne := hend.ne_abandoned h₀ hcalm
  show t.outcome.result = .ok ()
  rw [hshows.result]
  cases hend with
  | unfit hr' he =>
    obtain ⟨path, hpath⟩ := hfit
    obtain rfl : r = _ := Option.some.inj (hr.symm.trans hr')
    rw [hpath] at he
    cases he
  | @turn u e hu hid hres =>
    rw [hok u hu hid] at hres
    cases e with
    | error e => cases hres
    | ok => rfl
  | crashed | dropped => exact absurd rfl hne

theorem Steps.run {n : Nat} (h : Steps p d n d') : Run p d [] d' := by
  induction h with
  | start => exact .start
  | act _ a hs ih => exact ih.act a hs
  | call _ m _ ih => exact ih.move m

/-- Without further submissions a run has only so many steps, and where it comes to rest the work has
    ended. -/
theorem Recorded.ends (h₀ : Unused p d₀) (h : Recorded p d₀ rs ts d) {id : WorkId}
    (hid : id < rs.length) {n : Nat} (hs : Steps p d n d') : n ≤ d.remaining ∧
      (Resting p d' → ∃ t, d'.tickets[id]? = some t ∧ t.isDone = true) := by
  have hle := hs.le (h.run.holds onItsWay_stable (h₀.holds _))
  refine ⟨by omega, fun hr => ?_⟩
  obtain ⟨ts', h'⟩ := hs.run.recorded
  have h' := h.trans h'
  rw [List.append_nil] at h'
  exact (h'.at_rest h₀ hr).ended id hid

end FilePipeline.Dispatcher
