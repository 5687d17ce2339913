import FilePipeline.Proofs.Dispatcher.Lines
import FilePipeline.Proofs.Dispatcher.Origins

/-! # Nothing is overtaken

Of the pushes that one queue accepts, the I/O stage sees the work in the order of acceptance, although
a compressed write goes through two queues and the second one takes in other work as well. `InOrder`
says so of the lines: the lane of a queue is in the order in which the queue accepted its work, and the
work on its way back in the order of the I/O turns that have handed it on; each step keeps that
(`InOrder.step`, `InOrder.turn`), and so does a run (`Logged.inOrder`).

So when a piece of work has its I/O turn, all that was accepted before it at the same queue has had its
own or has ended (`Logged.before_io`), and reads leave the compression stage in the order in which they
left the I/O stage (`Logged.back_in_order`, `Logged.ended_of_ended`). -/

namespace FilePipeline.Dispatcher

variable {σ η κ : Type} {p : Setup σ η κ} {d d' d₀ : Dispatcher σ κ} {rs : List Submission}
  {as : List (Stage × WorkId)} {ts : List (Turn σ κ)}

/-! ### Order in lists -/

theorem not_sublist_swap {α : Type} {a b : α} {l : List α} (hn : l.Nodup)
    (h : [a, b].Sublist l) : ¬ [b, a].Sublist l := by
  induction l with
  | nil => cases h
  | cons x l ih =>
    intro h'
    obtain ⟨hx, hn⟩ := List.nodup_cons.mp hn
    cases h with
    | cons _ h =>
      cases h' with
      | cons _ h' => exact ih hn h h'
      | cons_cons _ h' => exact hx (h.subset (by simp))
    | cons_cons _ h =>
      cases h' with
      | cons _ h' => exact hx (h'.subset (by simp))
      | cons_cons _ h' => exact hx (h'.subset (by simp))

theorem sublist_of_append {α : Type} {a b : α} {l₁ l₂ : List α} (hn : (l₁ ++ l₂).Nodup)
    (h : [a, b].Sublist (l₁ ++ l₂)) (hb : b ∈ l₁) : [a, b].Sublist l₁ := by
  obtain ⟨x, y, hxy, hx, hy⟩ := List.sublist_append_iff.mp h
  rcases List.eq_nil_or_concat y with rfl | ⟨y, c, rfl⟩
  · rw [hxy, List.append_nil]
    exact hx
  · -- otherwise the later one is in the second part as well
    have hlast := congrArg List.getLast? hxy
    simp only [List.concat_eq_append, ← List.append_assoc, List.getLast?_append,
      List.getLast?_singleton] at hlast
    obtain rfl : b = c := by simpa using hlast
    exact (List.disjoint_of_nodup_append hn hb (hy.subset (by simp))).elim

/-! ### The orders -/

/-- What a queue has accepted, in order. -/
def accepted (as : List (Stage × WorkId)) (s : Stage) : List WorkId :=
  (as.filter (·.1 = s)).map Prod.snd

/-- The reads that the I/O stage has handed on, in the order of its turns. -/
def forwarded (p : Setup σ η κ) (ts : List (Turn σ κ)) : List WorkId :=
  ((ioTurns ts).filter (·.readied p)).map (·.work.id)

/-- The reads that the compression stage has processed, in the order of its turns. -/
def unframed (ts : List (Turn σ κ)) : List WorkId :=
  (ts.filter fun t => t.stage = .compression ∧ t.work.op = .read).map (·.work.id)

theorem mem_accepted {s : Stage} {id : WorkId} : id ∈ accepted as s ↔ (s, id) ∈ as := by
  unfold accepted
  simp [List.mem_map, List.mem_filter]

theorem accepted_append (as as' : List (Stage × WorkId)) (s : Stage) :
    accepted (as ++ as') s = accepted as s ++ accepted as' s := by
  unfold accepted
  rw [List.filter_append, List.map_append]

theorem accepted_sublist {s : Stage} {a b : WorkId} (h : [(s, a), (s, b)].Sublist as) :
    [a, b].Sublist (accepted as s) := by
  have h := (h.filter (fun x : Stage × WorkId => x.1 = s)).map Prod.snd
  simpa [accepted] using h

theorem Logged.nodup_accepted (h₀ : Unused p d₀) (h : Logged p d₀ rs as ts d) (s : Stage) :
    (accepted as s).Nodup :=
  ((List.filter_sublist (l := as)).map Prod.snd).nodup (h.once h₀).1

theorem Recorded.nodup_forwarded (h₀ : Unused p d₀) (h : Recorded p d₀ rs ts d) :
    (forwarded p ts).Nodup :=
  ((List.filter_sublist (l := ioTurns ts)).map _).nodup (h.io_once h₀)

/-- The orders that the lines of work keep. -/
structure InOrder (p : Setup σ η κ) (as : List (Stage × WorkId)) (ts : List (Turn σ κ)) (l : Line) :
    Prop where
  /-- Work came in at its queue in the order in which it is in the lane. -/
  lanes : ∀ s, ((l.lane s).map Tag.id).Sublist (accepted as s)
  /-- On its way back is what the I/O stage has handed on last, -/
  back : (l.returning.map Tag.id) <:+ forwarded p ts
  /-- and what the compression stage has processed was handed on before. -/
  served : (unframed ts ++ l.returning.map Tag.id).Sublist (forwarded p ts)

namespace InOrder

variable {l l' : Line}

theorem step (h : InOrder p as ts l) (hl : l.Step l') : InOrder p as ts l' := by
  have hback : l'.returning.map Tag.id <:+ l.returning.map Tag.id := hl.returning.map _
  refine ⟨fun s => ((hl.lane s).map _).trans (h.lanes s), hback.trans h.back, ?_⟩
  exact ((List.Sublist.refl _).append hback.sublist).trans h.served

theorem accept (h : InOrder p as ts l) {t : Tag} {s : Stage} (ht : t.route = s) :
    InOrder p (as ++ [(s, t.id)]) ts (l.push t s) := by
  refine ⟨fun s' => ?_, ?_, ?_⟩
  · rw [l.lane_push ht s', List.map_append, accepted_append]
    refine (h.lanes s').append ?_
    by_cases hs : s = s'
    · simp [accepted, hs]
    · simp [accepted, hs]
  · rw [l.returning_push ht]
    exact h.back
  · rw [l.returning_push ht]
    exact h.served

theorem turn (h : InOrder p as ts l) {t : Turn σ κ}
    (hl : l.Takes t.stage t.work.tag (t.readied p) l') : InOrder p as (ts ++ [t]) l' := by
  have hlanes : ∀ s, ((l'.lane s).map Tag.id).Sublist (accepted as s) := fun s =>
    ((hl.lane s).map _).trans (h.lanes s)
  have hback := h.back
  have hserved := h.served
  cases hs : t.stage with
  | io =>
    -- what is handed on goes to the end of both lists
    rw [hs] at hl
    have hreturning : l'.returning.map Tag.id =
        l.returning.map Tag.id ++ if t.readied p then [t.work.id] else [] := by
      rw [hl.returning_io]
      cases t.readied p <;> simp [Work.tag]
    have hforwarded : forwarded p (ts ++ [t]) =
        forwarded p ts ++ if t.readied p then [t.work.id] else [] := by
      cases hr : t.readied p <;> simp [forwarded, ioTurns, List.filter_append, hs, hr]
    have hunframed : unframed (ts ++ [t]) = unframed ts := by
      simp [unframed, List.filter_append, hs]
    refine ⟨hlanes, ?_, ?_⟩
    · rw [hreturning, hforwarded]
      obtain ⟨gone, hgone⟩ := hback
      exact ⟨gone, by rw [← hgone, List.append_assoc]⟩
    · rw [hreturning, hforwarded, hunframed, ← List.append_assoc]
      exact hserved.append (List.Sublist.refl _)
  | compression =>
    have hforwarded : forwarded p (ts ++ [t]) = forwarded p ts := by
      simp [forwarded, ioTurns, List.filter_append, hs]
    rw [hs] at hl
    cases hop : t.work.op with
    | write =>
      have hreturning : l'.returning = l.returning := hl.returning_write hop
      have hunframed : unframed (ts ++ [t]) = unframed ts := by
        simp [unframed, List.filter_append, hop]
      refine ⟨hlanes, ?_, ?_⟩
      · rw [hreturning, hforwarded]
        exact hback
      · rw [hreturning, hforwarded, hunframed]
        exact hserved
    | read =>
      -- the first of the reads leaves
      have hreturning : l.returning = t.work.tag :: l'.returning := hl.returning_read hop
      have hunframed : unframed (ts ++ [t]) = unframed ts ++ [t.work.id] := by
        simp [unframed, List.filter_append, hs, hop]
      rw [hreturning, List.map_cons] at hback hserved
      refine ⟨hlanes, ?_, ?_⟩
      · rw [hforwarded]
        exact (List.suffix_cons _ _).trans hback
      · rw [hforwarded, hunframed, List.append_assoc]
        exact hserved

end InOrder

theorem Unused.line (h : Unused p d) : d.line = ⟨[], [], []⟩ := by
  unfold Dispatcher.line lineOf
  rw [h.tasks, h.queues]
  rfl

/-- The lines are in order in every run. -/
theorem Logged.inOrder (h₀ : Unused p d₀) (h : Logged p d₀ rs as ts d) :
    InOrder p as ts d.line := by
  induction h with
  | start =>
    rw [h₀.line]
    refine ⟨fun s => ?_, List.nil_suffix, List.nil_sublist _⟩
    cases s <;> exact List.nil_sublist _
  | submit r _ _ ih =>
    rw [line_submit]
    exact ih
  | accept h hw hq ih =>
    obtain ⟨hroute, hline⟩ := line_accept (h.recorded.run.holds (routed_stable p) (h₀.holds _)) hw hq
    rw [hline]
    exact ih.accept hroute
  | turn _ hw hs ih => exact ih.turn (line_of_turn hw hs)
  | @move rs as ts d d' h m stay wait ih =>
    have hrun := h.recorded.run
    rcases m.cases_of_wait (hrun.balanced h₀.inBalance) stay wait with ⟨a, ht, ha, hpush⟩ | hc
    · exact ih.step (line_of_transition ht ha hpush (hrun.holds (routed_stable p) (h₀.holds _))
        (hrun.guided h₀) (hrun.soundQueues h₀.sound))
    · rw [line_congr hc.tasks hc.queues]
      exact ih

/-! ### Routes -/

theorem AskedFor.route {r : Submission} {w : Work} (h : AskedFor p r w) :
    w.tag.route = firstStage r := by
  obtain ⟨path, -, h⟩ := h
  rw [h.tag]
  exact route_ofSubmission _ _ _ _

theorem lane_of_io {w : Work} (hw : d.tasks.get .io = .busy w) :
    ∃ rest, d.line.lane w.tag.route = w.tag :: rest := by
  rw [line_of_io hw]
  exact Line.lane_cons _ _ _ _

theorem Logged.accepted_of_io (h₀ : Unused p d₀) (h : Logged p d₀ rs as ts d) {w : Work}
    (hw : d.tasks.get .io = .busy w) : w.id ∈ accepted as w.tag.route := by
  obtain ⟨rest, hlane⟩ := lane_of_io hw
  have hsub := (h.inOrder h₀).lanes w.tag.route
  rw [hlane] at hsub
  exact hsub.subset List.mem_cons_self

theorem Logged.accepted_of_turn (h₀ : Unused p d₀) (h : Logged p d₀ rs as ts d) {u : Turn σ κ}
    (hu : u ∈ ioTurns ts) : (u.work.tag.route, u.work.id) ∈ as := by
  obtain ⟨hu, hio⟩ := mem_ioTurns.mp hu
  obtain ⟨ts₁, ts₂, hts⟩ := List.append_of_mem hu
  obtain ⟨rs₁, as₁, -, has, hlog, hw⟩ := h.at_turn hts
  rw [hio] at hw
  exact has.subset (mem_accepted.mp (hlog.accepted_of_io h₀ hw))

/-! ### Work that has not ended -/

theorem InBalance.exists_held (hb : d.InBalance) {id : WorkId} {t : Ticket}
    (ht : d.tickets[id]? = some t) (hp : t.isDone = false) : ∃ h, ∃ w ∈ d.worksOf h, w.id = id := by
  obtain ⟨x, hx⟩ := hb.exists_place (List.getElem?_eq_some_iff.mp ht).1
  cases x with
  | held h i =>
    obtain ⟨w, hw, hid⟩ := hx
    exact ⟨h, w, List.mem_of_getElem? hw, hid⟩
  | ended =>
    obtain ⟨t', ht', hd⟩ := hx
    obtain rfl := Option.some.inj (ht.symm.trans ht')
    rw [hp] at hd
    cases hd

/-- What is known of work that stands in line. -/
def Traced (p : Setup σ η κ) (rs : List Submission) (ts : List (Turn σ κ)) (s : Stage) (w : Work) :
    Prop :=
  Ahead ts s w ∧ Origin p rs ts s w

theorem Logged.standing (h₀ : Unused p d₀) (h : Logged p d₀ rs as ts d) {id : WorkId} {t : Ticket}
    (ht : d.tickets[id]? = some t) (hp : t.isDone = false) :
    ∃ w : Work, w.id = id ∧ Standing (Traced p rs ts) d w := by
  have hrun := h.recorded.run
  obtain ⟨g, w, hw, hid⟩ := (hrun.balanced h₀.inBalance).exists_held ht hp
  have htraced := ((account_ahead h₀).and account_origin).holds h₀ h.recorded
  exact ⟨w, hid, standing_of_held (hrun.holds (routed_stable p) (h₀.holds _)) htraced hw⟩

theorem Origin.io_of_read {w : Work} (h : Origin p rs ts .compression w) (hop : w.op = .read) :
    ∃ x ∈ ioTurns ts, x.work.id = w.id := by
  obtain ⟨r, hr, ha⟩ := h.asked
  have hfirst : firstStage r ≠ .compression := by
    intro he
    have hwrite : w.op = .write := Tag.op_of_route (t := w.tag) (ha.route.trans he)
    rw [hop] at hwrite
    cases hwrite
  obtain ⟨x, hx, hon, -⟩ := h.handed hr hfirst
  have hio : x.stage = .io := by
    have hstage := hon.stage
    cases hs : x.stage with
    | io => rfl
    | compression => rw [hs] at hstage; cases hstage
  exact ⟨x, mem_ioTurns.mpr ⟨hx, hio⟩, hon.sameAs.id.symm⟩

/-! ### Before the I/O stage -/

/-- What was accepted before the work that the I/O worker is busy with has left the lane of both. -/
theorem Logged.left_lane (h₀ : Unused p d₀) (h : Logged p d₀ rs as ts d) {u w : Work}
    (hu : d.tasks.get .io = .busy u) (hab : [w.id, u.id].Sublist (accepted as u.tag.route)) :
    w.tag ∉ d.line.lane u.tag.route := by
  intro hmem
  have hnodup := h.nodup_accepted h₀ u.tag.route
  obtain ⟨rest, hlane⟩ := lane_of_io hu
  have hsub := (h.inOrder h₀).lanes u.tag.route
  rw [hlane] at hmem hsub
  rcases List.mem_cons.mp hmem with he | hmem
  · rw [show w.id = u.id from congrArg Tag.id he] at hab
    exact not_sublist_swap hnodup hab hab
  · have hw : w.id ∈ rest.map Tag.id := List.mem_map_of_mem (f := Tag.id) hmem
    have hba : [u.id, w.id].Sublist ((u.tag :: rest).map Tag.id) :=
      (List.singleton_sublist.mpr hw).cons_cons u.id
    exact not_sublist_swap hnodup hab (hba.trans hsub)

/-- Work that was accepted and has not ended is in a lane or has had its I/O turn. -/
theorem Logged.lane_or_io (h₀ : Unused p d₀) (h : Logged p d₀ rs as ts d) {s : Stage} {id : WorkId}
    (hacc : id ∈ accepted as s) : (∃ t, d.tickets[id]? = some t ∧ t.isDone = true) ∨
      (∃ w : Work, w.id = id ∧ w.tag ∈ d.line.lane s) ∨ ∃ x ∈ ioTurns ts, x.work.id = id := by
  have hmem := mem_accepted.mp hacc
  obtain ⟨r, hr, hfirst⟩ := h.asked h₀ hmem
  obtain ⟨t, ht⟩ : ∃ t, d.tickets[id]? = some t := by
    have hlt := (List.getElem?_eq_some_iff.mp hr).1
    rw [← h.recorded.run.length h₀.tickets] at hlt
    exact ⟨_, List.getElem?_eq_getElem hlt⟩
  cases hd : t.isDone with
  | true => exact Or.inl ⟨t, ht, hd⟩
  | false =>
    refine Or.inr ?_
    obtain ⟨w, hwid, hstanding⟩ := h.standing h₀ ht hd
    obtain ⟨s', -, ho⟩ := hstanding.holds
    have hws : w.tag.route = s := (ho.of_submission (by rw [hwid]; exact hr)).route.trans hfirst
    cases hstanding with
    | waiting hw =>
      exact absurd (List.mem_map_of_mem (f := Prod.snd) hmem) (hwid ▸ (h.once h₀).2 _ hw)
    | near hw =>
      refine Or.inl ⟨w, hwid, ?_⟩
      have hnear : w.tag ∈ d.line.near.filter (·.route = s) :=
        List.mem_filter.mpr ⟨hw, by simp [hws]⟩
      cases s with
      | io => exact hnear
      | compression => exact List.mem_append_left _ hnear
    | far hw hop hroute =>
      refine Or.inl ⟨w, hwid, ?_⟩
      obtain rfl : s = .compression := hws.symm.trans hroute
      exact List.mem_append_right _ (List.mem_filter.mpr ⟨hw, by simp [Work.tag, hop]⟩)
    | back hw hop hP =>
      obtain ⟨x, hx, hxid⟩ := hP.2.io_of_read hop
      exact Or.inr ⟨x, hx, hxid.trans hwid⟩

/-- Work that came in at the same queue before the work of an I/O turn has had its own I/O turn before,
    or has ended. -/
theorem Logged.before_io (h₀ : Unused p d₀) (h : Logged p d₀ rs as ts d) {s : Stage} {a b : WorkId}
    (hab : [(s, a), (s, b)].Sublist as) {ts₁ ts₂ : List (Turn σ κ)} {u : Turn σ κ}
    (hts : ts = ts₁ ++ u :: ts₂) (hio : u.stage = .io) (hid : u.work.id = b) :
    (∃ x ∈ ioTurns ts₁, x.work.id = a) ∨
      ∃ t, u.before.tickets[a]? = some t ∧ t.isDone = true := by
  obtain ⟨rs₁, as₁, -, ⟨as₂, rfl⟩, hlog, hw⟩ := h.at_turn hts
  rw [hio] at hw
  subst hid
  have hmem := hlog.accepted_of_io h₀ hw
  -- the number of a piece of work stands in one queue only
  have hroute : u.work.tag.route = s := by
    obtain ⟨r, hr, hfirst⟩ := h.asked h₀ (hab.subset (by simp : (s, u.work.id) ∈ _))
    obtain ⟨r', hr', hfirst'⟩ := h.asked h₀ (List.mem_append_left as₂ (mem_accepted.mp hmem))
    obtain rfl := Option.some.inj (hr.symm.trans hr')
    exact hfirst'.symm.trans hfirst
  have hnodup := h.nodup_accepted h₀ s
  have hab := accepted_sublist hab
  rw [accepted_append] at hnodup hab
  have hab : [a, u.work.id].Sublist (accepted as₁ s) :=
    sublist_of_append hnodup hab (hroute ▸ hmem)
  rcases hlog.lane_or_io h₀ (hab.subset List.mem_cons_self) with hd | ⟨w, rfl, hlane⟩ | hx
  · exact Or.inr hd
  · subst hroute
    exact absurd hlane (hlog.left_lane h₀ hw hab)
  · exact Or.inl hx

theorem Recorded.pending_of_later (h₀ : Unused p d₀) {ts₁ ts₂ : List (Turn σ κ)} {u x : Turn σ κ}
    (h : Recorded p d₀ rs (ts₁ ++ u :: ts₂) d) (hx : x ∈ ts₂) {t : Ticket}
    (ht : u.before.tickets[x.work.id]? = some t) : t.isDone = false := by
  obtain ⟨rs₁, rs₂, d₁, rfl, hbefore, hw, hs, hlater⟩ := h.split rfl
  obtain ⟨us, us', rfl⟩ := List.append_of_mem hx
  obtain ⟨rs', hrs, hrec, hwx⟩ := hlater.at_turn rfl
  have hat := (hbefore.turn hw hs).trans hrec
  obtain ⟨t', ht', hp, -⟩ := (hat.run.balanced h₀.inBalance).pending_of_mem
    (mem_held (mem_worksOf_worker hwx List.mem_cons_self))
  by_contra hd
  have hd : t.isDone = true := by simpa using hd
  obtain ⟨t'', ht'', hk⟩ := ((Run.start.act _ hs).trans hrec.run).kept ht hd
  obtain rfl := Option.some.inj (ht'.symm.trans ht'')
  rw [hk.isDone hd] at hp
  cases hp

/-- Work has no I/O turn after that of work that came in later at the same queue. -/
theorem Logged.not_later (h₀ : Unused p d₀) {ts₁ ts₂ : List (Turn σ κ)} {u x : Turn σ κ}
    (h : Logged p d₀ rs as (ts₁ ++ u :: ts₂) d) (hio : u.stage = .io) (hx : x ∈ ts₂)
    (hxio : x.stage = .io) {s : Stage} :
    ¬ [(s, x.work.id), (s, u.work.id)].Sublist as := by
  intro hab
  rcases h.before_io h₀ hab rfl hio rfl with ⟨y, hy, hid⟩ | ⟨t, ht, hd⟩
  · obtain ⟨hy, hyio⟩ := mem_ioTurns.mp hy
    obtain ⟨us, us', rfl⟩ := List.append_of_mem hy
    have hrec := h.recorded
    rw [List.append_assoc] at hrec
    have hmem : x ∈ us' ++ u :: ts₂ := by simp [hx]
    exact hrec.id_ne_of_later h₀ hyio hmem hxio hid.symm
  · rw [h.recorded.pending_of_later h₀ hx ht] at hd
    cases hd

/-- The I/O turns of work that came in at one queue are in the order of acceptance. -/
theorem Logged.io_in_order (h₀ : Unused p d₀) (h : Logged p d₀ rs as ts d) {s : Stage}
    {u x : Turn σ κ} (hu : u ∈ ioTurns ts) (hx : x ∈ ioTurns ts)
    (hux : [(s, u.work.id), (s, x.work.id)].Sublist as) :
    ∃ ts₁ ts₂ ts₃, ts = ts₁ ++ u :: (ts₂ ++ x :: ts₃) := by
  obtain ⟨hu, huio⟩ := mem_ioTurns.mp hu
  obtain ⟨hx, hxio⟩ := mem_ioTurns.mp hx
  obtain ⟨ts₁, ts₃, rfl⟩ := List.append_of_mem hx
  have hfirst : u ∈ ts₁ := by
    rcases List.mem_append.mp hu with hu | hu
    · exact hu
    · rcases List.mem_cons.mp hu with rfl | hu
      · have hux := accepted_sublist hux
        exact absurd hux (not_sublist_swap (h.nodup_accepted h₀ s) hux)
      · exact absurd hux (h.not_later h₀ hxio hu huio)
  obtain ⟨ts₁, ts₂, rfl⟩ := List.append_of_mem hfirst
  exact ⟨ts₁, ts₂, ts₃, by simp⟩

theorem Logged.accepted_after (h₀ : Unused p d₀) {ts₁ ts₂ : List (Turn σ κ)} {u x : Turn σ κ}
    {as₁ as₂ : List (Stage × WorkId)} {s : Stage}
    (h : Logged p d₀ rs (as₁ ++ (s, u.work.id) :: as₂) (ts₁ ++ u :: ts₂) d) (hio : u.stage = .io)
    (hx : x ∈ ts₂) (hxio : x.stage = .io) (hroute : x.work.tag.route = s) :
    (s, x.work.id) ∈ as₂ := by
  have hacc : (s, x.work.id) ∈ as₁ ++ (s, u.work.id) :: as₂ :=
    hroute ▸ h.accepted_of_turn h₀ (mem_ioTurns.mpr ⟨by simp [hx], hxio⟩)
  rcases List.mem_append.mp hacc with hearlier | hlater
  · refine absurd ?_ (h.not_later h₀ hio hx hxio (s := s))
    exact (List.singleton_sublist.mpr hearlier).append
      (List.singleton_sublist.mpr List.mem_cons_self)
  · rcases List.mem_cons.mp hlater with he | hlater
    · exact absurd (Prod.mk.inj he).2 (h.recorded.id_ne_of_later h₀ hio hx hxio)
    · exact hlater

/-- Work that has its I/O turn between two others of one queue came in between them. -/
theorem Logged.accepted_between (h₀ : Unused p d₀) {ts₁ ts₂ ts₃ : List (Turn σ κ)} {u x y : Turn σ κ}
    {as₁ as₂ as₃ : List (Stage × WorkId)} {s : Stage}
    (h : Logged p d₀ rs (as₁ ++ (s, u.work.id) :: (as₂ ++ (s, x.work.id) :: as₃))
      (ts₁ ++ u :: (ts₂ ++ x :: ts₃)) d) (huio : u.stage = .io) (hxio : x.stage = .io)
    (hy : y ∈ ts₂) (hyio : y.stage = .io) (hroute : y.work.tag.route = s) :
    (s, y.work.id) ∈ as₂ := by
  have hafter := h.accepted_after h₀ huio (List.mem_append_left (x :: ts₃) hy) hyio hroute
  obtain ⟨us, us', rfl⟩ := List.append_of_mem hy
  have hts : ts₁ ++ u :: ((us ++ y :: us') ++ x :: ts₃) =
      (ts₁ ++ u :: us) ++ y :: (us' ++ x :: ts₃) := by simp
  rw [hts] at h
  have hx : x ∈ us' ++ x :: ts₃ := by simp
  rcases List.mem_append.mp hafter with hmem | hmem
  · exact hmem
  · rcases List.mem_cons.mp hmem with he | hmem
    · exact absurd (Prod.mk.inj he).2.symm (h.recorded.id_ne_of_later h₀ hyio hx hxio)
    · refine absurd ?_ (h.not_later h₀ hyio hx hxio (s := s))
      refine List.sublist_append_of_sublist_right (List.Sublist.cons _ ?_)
      refine List.sublist_append_of_sublist_right (List.Sublist.cons_cons _ ?_)
      exact List.singleton_sublist.mpr hmem

/-! ### On the way back -/

theorem Logged.back_in_order (h₀ : Unused p d₀) (h : Logged p d₀ rs as ts d) :
    (unframed ts).Sublist (forwarded p ts) :=
  (List.sublist_append_left _ _).trans (h.inOrder h₀).served

/-- What has been handed on and has not ended is on its way back. -/
theorem Logged.returning_of_pending (h₀ : Unused p d₀) (h : Logged p d₀ rs as ts d) {id : WorkId}
    (hid : id ∈ forwarded p ts) {t : Ticket} (ht : d.tickets[id]? = some t)
    (hp : t.isDone = false) : id ∈ d.line.returning.map Tag.id := by
  obtain ⟨x, hx, hxid⟩ := List.mem_map.mp hid
  obtain ⟨hx, hready⟩ := List.mem_filter.mp hx
  obtain ⟨w, hwid, hstanding⟩ := h.standing h₀ ht hp
  have hread : w.op = .read := by
    obtain ⟨s, -, ho⟩ := hstanding.holds
    obtain ⟨r, hr, ha⟩ := ho.asked
    have hax := (h.recorded.origin h₀ (mem_ioTurns.mp hx).1).of_submission
      (by rw [hxid, ← hwid]; exact hr)
    rcases Turn.op_of_readied hready with ⟨-, hop, -⟩ | ⟨hs, -⟩
    · exact ha.op.trans (hax.op.symm.trans hop)
    · rw [(mem_ioTurns.mp hx).2] at hs
      cases hs
  have hroute : w.tag.route = .io := by
    unfold Tag.route
    exact if_neg fun hc => by rw [show w.tag.op = .read from hread] at hc; cases hc.1
  cases hstanding with
  | waiting _ hs hP => exact absurd (hxid.trans hwid.symm) (hP.1 (Or.inl (hs.symm.trans hroute)) x hx)
  | near _ hP => exact absurd (hxid.trans hwid.symm) (hP.1 (Or.inl rfl) x hx)
  | far _ hop => rw [hread] at hop; cases hop
  | back hw =>
    rw [← hwid]
    exact List.mem_map_of_mem (f := Tag.id) hw

theorem Logged.pending_of_returning (h₀ : Unused p d₀) (h : Logged p d₀ rs as ts d) {id : WorkId}
    (hid : id ∈ d.line.returning.map Tag.id) {t : Ticket} (ht : d.tickets[id]? = some t) :
    t.isDone = false := by
  have hheld : ∃ w ∈ d.held, w.id = id := by
    obtain ⟨u, hu, rfl⟩ := List.mem_map.mp hid
    rcases List.mem_append.mp hu with hu | hu
    · obtain ⟨w, hw, rfl⟩ := List.mem_map.mp (List.mem_filter.mp hu).1
      rcases List.mem_append.mp hw with hw | hw
      · exact ⟨w, mem_held (h := .worker .compression) hw, rfl⟩
      · exact ⟨w, mem_held (h := .queue .compression) hw, rfl⟩
    · obtain ⟨w, hw, rfl⟩ := List.mem_map.mp hu
      refine ⟨w, mem_held (h := .worker .io) ?_, rfl⟩
      show w ∈ d.tasks.io.works
      cases hio : d.tasks.io <;> rw [hio] at hw <;> first | exact hw | cases hw
  obtain ⟨w, hw, rfl⟩ := hheld
  obtain ⟨t', ht', hp, -⟩ := (h.recorded.run.balanced h₀.inBalance).pending_of_mem hw
  obtain rfl := Option.some.inj (ht.symm.trans ht')
  exact hp

/-- Reads leave the compression stage in the order of their I/O turns, however they leave it. -/
theorem Logged.ended_of_ended (h₀ : Unused p d₀) (h : Logged p d₀ rs as ts d) {a b : WorkId}
    (hab : [a, b].Sublist (forwarded p ts)) {t t' : Ticket} (ht : d.tickets[a]? = some t)
    (ht' : d.tickets[b]? = some t') (hd : t'.isDone = true) : t.isDone = true := by
  by_contra hp
  have hp : t.isDone = false := by simpa using hp
  have ha := h.returning_of_pending h₀ (hab.subset List.mem_cons_self) ht hp
  obtain ⟨gone, hgone⟩ := (h.inOrder h₀).back
  have hnodup := h.recorded.nodup_forwarded h₀
  rw [← hgone] at hab hnodup
  have hb : b ∈ d.line.returning.map Tag.id := by
    have hmem : b ∈ gone ++ d.line.returning.map Tag.id := hab.subset (by simp)
    refine (List.mem_append.mp hmem).resolve_left fun hb => ?_
    -- what is gone went before what is still on its way
    refine not_sublist_swap hnodup hab ?_
    exact (List.singleton_sublist.mpr hb).append (List.singleton_sublist.mpr ha)
  rw [h.pending_of_returning h₀ hb ht'] at hd
  cases hd

end FilePipeline.Dispatcher
