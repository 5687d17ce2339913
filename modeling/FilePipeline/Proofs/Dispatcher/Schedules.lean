import FilePipeline.Proofs.Dispatcher.Counters
import FilePipeline.Proofs.Dispatcher.Disjoint
import FilePipeline.Proofs.Dispatcher.Robust

/-! # What does not depend on the schedule

Two runs without crashes are compared (`Twins`), which begin over the same files and heaps. What is
submitted in both of them, on paths of its own, has in each of them the same turns at work that is alike
(`Twins.matched`), whatever else is submitted, in whatever order it comes to its turns, and however often
a queue was full. So its handles give the same answers (`Twins.answers`) and its file is the same in the
end (`Twins.part_eq`); if both runs have the same submissions, so are all files and all counters
(`Smooth.agree`). -/

namespace FilePipeline

/-- The setup with queues of another capacity. -/
def Setup.resize {σ η κ : Type} (p : Setup σ η κ) (n : Nat) : Setup σ η κ :=
  { p with config := { p.config with queueCapacity := n } }

/-! ### Tickets that give the same answers -/

namespace Ticket

/-- The handles of two tickets whose work has ended give the same answers. -/
structure AnswersAs (t t' : Ticket) : Prop where
  ended : t.isDone = true ∧ t'.isDone = true
  op : t.op = t'.op
  result : t.result = t'.result
  size : t.size = t'.size
  /-- They show the same bytes, unless somebody has taken a buffer over or dropped a handle. -/
  buffer : t.HandedOver ∨ t'.HandedOver ∨
    (t.buffer = t'.buffer ∧ t.terminated = t'.terminated)

variable {t t' : Ticket}

theorem terminated_of_like (hop : t.op = t'.op) (h : t.outcome.buffer.Like t'.outcome.buffer) :
    t.terminated = t'.terminated := by
  unfold outcome at h
  unfold terminated
  rw [← hop]
  generalize t.look.1.buffer = b at h ⊢
  generalize t'.look.1.buffer = b' at h ⊢
  cases h with
  | none => rfl
  | caller => rfl
  | owned h =>
    cases t.op with
    | read => exact h.terminated?
    | write => rfl

theorem answersAs_of_shows {o o' : Outcome} (hop : t.op = t'.op) (hd : t.isDone = true)
    (hd' : t'.isDone = true) (h : t.Shows o) (h' : t'.Shows o') (ho : o.Like o') :
    t.AnswersAs t' := by
  have hresult : t.result = t'.result := (h.result.trans ho.result).trans h'.result.symm
  refine ⟨⟨hd, hd'⟩, hop, hresult, (h.size.trans ho.size).trans h'.size.symm, ?_⟩
  rcases h.buffer with hbuf | hover
  · rcases h'.buffer with hbuf' | hover
    · have hlike : t.outcome.buffer.Like t'.outcome.buffer := by
        rw [hbuf, hbuf']
        exact ho.buffer
      refine Or.inr (Or.inr ⟨?_, terminated_of_like hop hlike⟩)
      have hresult : t.look.1.result = t'.look.1.result := hresult
      unfold Ticket.buffer
      rw [hresult]
      split
      · exact hlike.bytes?
      · rfl
    · exact Or.inr (Or.inl hover)
  · exact Or.inl hover

theorem AnswersAs.share (h : t.AnswersAs t') (c : Counter) : t.share c = t'.share c := by
  have hd : t.isDone = t'.isDone := h.ended.1.trans h.ended.2.symm
  unfold Ticket.share Ticket.hasFailed Ticket.hasServed
  rw [hd, h.op, h.result, h.size]

end Ticket

namespace Dispatcher

variable {σ η κ τ : Type} {p : Setup σ η κ} {v : Parts σ η τ} {m n : Nat}
  {d d' d₀ e e₀ : Dispatcher σ κ} {rs rs' : List Submission} {ts ts' : List (Turn σ κ)}
  {r : Submission} {i j : WorkId}

/-! ### Smooth runs -/

/-- A run from the start, with submissions on pairwise distinct paths and over steady heaps, in which no
    worker crashes. -/
structure Smooth (p : Setup σ η κ) (d₀ : Dispatcher σ κ) (rs : List Submission)
    (ts : List (Turn σ κ)) (d : Dispatcher σ κ) : Prop where
  fresh : Fresh p d₀
  recorded : Recorded p d₀ rs ts d
  distinct : (rs.map Submission.path).Nodup
  steady : d₀.heaps.Steady
  calm : ∀ t ∈ ts, t.crashed p = false

/-- A recorded run goes through the state `x`. -/
def Through (p : Setup σ η κ) (d₀ : Dispatcher σ κ) (rs : List Submission) (ts : List (Turn σ κ))
    (d x : Dispatcher σ κ) : Prop :=
  ∃ rs₁ rs₂ ts₁ ts₂, rs₁ ++ rs₂ = rs ∧ ts₁ ++ ts₂ = ts ∧ Recorded p d₀ rs₁ ts₁ x ∧
    Recorded p x rs₂ ts₂ d

theorem Turn.ended {u : Turn σ κ} {x : Except WorkError Unit} (hres : u.result p = Attempt.ofExcept x)
    (hh : x = .ok () → handsOn u.stage (u.after p) = false) :
    u.readied p = false ∧ u.verdict p = x := by
  unfold Turn.readied Turn.verdict
  rw [hres]
  rcases x with e | ⟨⟩
  · exact ⟨rfl, rfl⟩
  · exact ⟨hh rfl, rfl⟩

namespace Smooth

theorem ending (h : Smooth p d₀ rs ts d) (hr : rs[i]? = some r) {t : Ticket}
    (ht : d.tickets[i]? = some t) (hd : t.isDone = true) :
    (∃ e, PathField.ofString? r.path = .error e ∧
        t.Shows ((Work.ofSubmission i p.ownHeap r).outcome (.error (.path e)))) ∨
      ∃ u ∈ ts, u.work.id = i ∧ u.readied p = false ∧
        t.Shows ((u.after p).outcome (u.verdict p)) := by
  have h₀ := h.fresh.unused
  obtain ⟨o, hshows, hend⟩ := h.recorded.ending h₀ ht hd
  have hne := hend.ne_abandoned h₀ h.calm
  cases hend with
  | @unfit r' e hr' he =>
    obtain rfl : r = r' := Option.some.inj (hr.symm.trans hr')
    exact Or.inl ⟨e, he, hshows⟩
  | @turn u x hu hid hres hh =>
    obtain ⟨hlast, rfl⟩ := Turn.ended hres hh
    exact Or.inr ⟨u, hu, hid, hlast, hshows⟩
  | crashed | dropped => exact absurd rfl hne

theorem ended (h : Smooth p d₀ rs ts d) (hs : d.isStopped = true) (hr : rs[i]? = some r) :
    ∃ t, d.tickets[i]? = some t ∧ t.isDone = true := by
  obtain ⟨x, hx⟩ := halt_of_isStopped hs
  have hstopped := (h.recorded.shuts_down h.fresh h.calm).stopped x hx
  exact hstopped.2 i (List.getElem?_eq_some_iff.mp hr).1

theorem fits (h : Smooth p d₀ rs ts d) {u : Turn σ κ} (hu : u ∈ ts) (hr : rs[u.work.id]? = some r)
    (x : PathError) : PathField.ofString? r.path ≠ .error x := by
  obtain ⟨path, hpath, -⟩ := (h.recorded.origin h.fresh.unused hu).of_submission hr
  rw [hpath]
  exact fun he => by cases he

theorem untouched (h : Smooth p d₀ rs ts d) (hb : p.backend.PerPath v) {f : String}
    (hf : ∀ r ∈ rs, r.path ≠ f) : v.part d.backend f = v.part d₀.backend f := by
  have h₀ := h.fresh.unused
  refine h.recorded.part_of_none h₀ hb h.steady fun u hu _ hpath => ?_
  obtain ⟨r, hr, hp⟩ := h.recorded.path_of_turn h₀ hu
  exact hf r (List.mem_of_getElem? hr) (hp.symm.trans hpath)

theorem through {x : Dispatcher σ κ} (h : Smooth p d₀ rs ts d)
    (hx : Through p d₀ rs ts d x) : ∃ rs₁ ts₁, rs₁ <+: rs ∧ Smooth p d₀ rs₁ ts₁ x := by
  obtain ⟨rs₁, rs₂, ts₁, ts₂, rfl, rfl, hrec, -⟩ := hx
  have hdistinct := h.distinct
  rw [List.map_append] at hdistinct
  exact ⟨rs₁, ts₁, List.prefix_append _ _, h.fresh, hrec, hdistinct.of_append_left, h.steady,
    fun t ht => h.calm t (List.mem_append_left _ ht)⟩

theorem submission {rs₁ : List Submission} {t : Ticket} (h : Smooth p d₀ rs₁ ts d)
    (hrs : rs₁ <+: rs) (ht : d.tickets[i]? = some t) (hr : rs[i]? = some r) : rs₁[i]? = some r := by
  obtain ⟨rs₂, rfl⟩ := hrs
  have hlt := (List.getElem?_eq_some_iff.mp ht).1
  rw [h.recorded.run.length h.fresh.unused.tickets] at hlt
  exact (List.getElem?_append_left hlt).symm.trans hr

end Smooth

/-! ### Two smooth runs -/

theorem map_eq_of_getElem? {α β γ : Type} {as : List α} {bs : List β} {f : β → γ} {F : α → γ}
    (hlen : bs.length = as.length)
    (h : ∀ a (i : Nat) b, as[i]? = some a → bs[i]? = some b → f b = F a) : bs.map f = as.map F := by
  refine List.ext_getElem (by rw [List.length_map, List.length_map, hlen]) fun i hi hi' => ?_
  rw [List.getElem_map, List.getElem_map]
  exact h _ i _ (List.getElem?_eq_getElem _) (List.getElem?_eq_getElem _)

theorem sum_eq_of_perm {α β : Type} {as as' : List α} {bs bs' : List β} (f : β → Nat)
    (hperm : as.Perm as') (hlen : bs.length = as.length) (hlen' : bs'.length = as'.length)
    (heq : ∀ {i j : Nat} {a : α} {b b' : β}, as[i]? = some a → as'[j]? = some a →
      bs[i]? = some b → bs'[j]? = some b' → f b = f b') :
    (bs.map f).sum = (bs'.map f).sum := by
  -- the value of a thing, which is the same wherever it stands
  have hvalue : ∀ a, ∃ k, (∀ (i : Nat) (b : β), as[i]? = some a → bs[i]? = some b → f b = k) ∧
      ∀ (j : Nat) (b : β), as'[j]? = some a → bs'[j]? = some b → f b = k := by
    intro a
    by_cases hmem : a ∈ as
    · obtain ⟨i, hi⟩ := List.mem_iff_getElem?.mp hmem
      obtain ⟨j, hj⟩ := List.mem_iff_getElem?.mp (hperm.mem_iff.mp hmem)
      have hlt : i < bs.length := hlen ▸ (List.getElem?_eq_some_iff.mp hi).1
      have hlt' : j < bs'.length := hlen' ▸ (List.getElem?_eq_some_iff.mp hj).1
      have hb := List.getElem?_eq_getElem hlt
      have hb' := List.getElem?_eq_getElem hlt'
      refine ⟨f bs[i], fun k b hk hkb => ?_, fun k b hk hkb => (heq hi hk hb hkb).symm⟩
      exact (heq hk hj hkb hb').trans (heq hi hj hb hb').symm
    · refine ⟨0, fun i b hi => absurd (List.mem_of_getElem? hi) hmem, fun j b hj => ?_⟩
      exact absurd (hperm.mem_iff.mpr (List.mem_of_getElem? hj)) hmem
  choose F hF hF' using hvalue
  rw [map_eq_of_getElem? hlen hF, map_eq_of_getElem? hlen' hF', (hperm.map F).sum_eq]

theorem ofSubmission_like (i j : WorkId) (heap : HeapId) (r : Submission) :
    (Work.ofSubmission i heap r).Like (Work.ofSubmission j heap r) := by
  refine ⟨j, (Work.ofSubmission i heap r).buffer, ?_, .refl _⟩
  cases r <;> rfl

/-- What was submitted is at its first turn the same in all runs. -/
theorem AsSubmitted.like {s s' : Stage} {w w' : Work} (h : AsSubmitted p rs s w)
    (h' : AsSubmitted p rs' s' w') (hr : rs[w.id]? = some r) (hr' : rs'[w'.id]? = some r) :
    s' = s ∧ w.Like w' := by
  obtain ⟨x, f, hx, hf, rfl, hw⟩ := h
  obtain ⟨x', f', hx', hf', rfl, hw'⟩ := h'
  obtain rfl := Option.some.inj (hr.symm.trans hx)
  obtain rfl := Option.some.inj (hr'.symm.trans hx')
  obtain rfl := Except.ok.inj (hf.symm.trans hf')
  refine ⟨rfl, ?_⟩
  obtain ⟨id, b, he, hb⟩ := ofSubmission_like w.id w'.id p.ownHeap r
  rw [hw, hw', he]
  exact ⟨id, b, rfl, hb⟩

/-- Two smooth runs over the same heaps and files, with queues of the capacities `m` and `n`. -/
structure Twins (p : Setup σ η κ) (v : Parts σ η τ) (m n : Nat) (d₀ : Dispatcher σ κ)
    (rs : List Submission) (ts : List (Turn σ κ)) (d e₀ : Dispatcher σ κ) (rs' : List Submission)
    (ts' : List (Turn σ κ)) (e : Dispatcher σ κ) : Prop where
  left : Smooth (p.resize m) d₀ rs ts d
  right : Smooth (p.resize n) e₀ rs' ts' e
  shape : d₀.heaps.shape = e₀.heaps.shape
  part : ∀ f, v.part d₀.backend f = v.part e₀.backend f

namespace Twins

theorem symm (h : Twins p v m n d₀ rs ts d e₀ rs' ts' e) :
    Twins p v n m e₀ rs' ts' e d₀ rs ts d :=
  ⟨h.right, h.left, h.shape.symm, fun f => (h.part f).symm⟩

variable (h : Twins p v m n d₀ rs ts d e₀ rs' ts' e) (hb : p.backend.PerPath v)
  {u u' : Turn σ κ}

include h hb

/-- Two turns of the same stage at work that is alike find the same. -/
theorem like (hu : u ∈ ts) (hu' : u' ∈ ts') (hs : u'.stage = u.stage) (hw : u.work.Like u'.work) :
    u.Like v u' := by
  have h₀ := h.left.fresh.unused
  have h₀' := h.right.fresh.unused
  refine ⟨hs, hw, ?_, fun hio => ?_⟩
  · rw [h.left.recorded.shape_at h₀ hu, h.right.recorded.shape_at h₀' hu', h.shape]
  · have hpath : u'.work.path = u.work.path := by
      obtain ⟨id, b, he, -⟩ := hw
      rw [he]
    have hpart := h.left.recorded.part_at h₀ h.left.distinct hb h.left.steady hu hio
    have hpart' := h.right.recorded.part_at h₀' h.right.distinct hb h.right.steady hu' (hs.trans hio)
    rw [hpath] at hpart'
    rw [hpart, hpart', h.part]

variable (hc : p.codec.Pure)

include hc

theorem same (hu : u ∈ ts) (hl : u.Like v u') : Turn.Same p v u u' :=
  hl.same hb hc (h.left.recorded.steady_at h.left.fresh.unused h.left.steady hu)

theorem first (hu : u ∈ ts) (hu' : u' ∈ ts') (ha : AsSubmitted (p.resize m) rs u.stage u.work)
    (ha' : AsSubmitted (p.resize n) rs' u'.stage u'.work) (hr : rs[u.work.id]? = some r)
    (hr' : rs'[u'.work.id]? = some r) : u.Like v u' ∧ Turn.Same p v u u' := by
  obtain ⟨hs, hw⟩ := AsSubmitted.like (p := p) ha ha' hr hr'
  have hl := h.like hb hu hu' hs hw
  exact ⟨hl, h.same hb hc hu hl⟩

/-- A turn at work that has come to its end in the other run: that run has had the same turn. -/
theorem matched (hu : u ∈ ts) (hu' : u' ∈ ts') (hr : rs[u.work.id]? = some r)
    (hr' : rs'[u'.work.id]? = some r) (hlast : u'.readied p = false) :
    ∃ t ∈ ts', t.work.id = u'.work.id ∧ u.Like v t ∧ (t = u' ∨ t.readied p = true) := by
  have ho : Origin (p.resize m) rs ts u.stage u.work := h.left.recorded.origin h.left.fresh.unused hu
  have ho' : Origin (p.resize n) rs' ts' u'.stage u'.work :=
    h.right.recorded.origin h.right.fresh.unused hu'
  -- the second turn of a route is compared with the one that has handed the work on
  rcases ho with ha | ⟨x, hx, hon, ha⟩ <;> rcases ho' with ha' | ⟨x', hx', hon', ha'⟩
  · exact ⟨u', hu', rfl, (h.first hb hc hu hu' ha ha' hr hr').1, Or.inl rfl⟩
  · have hid : x'.work.id = u'.work.id := hon'.sameAs.id.symm
    obtain ⟨hl, -⟩ := h.first hb hc hu hx' ha ha' hr (by rw [hid]; exact hr')
    exact ⟨x', hx', hid, hl, Or.inr hon'.readied⟩
  · have hid : x.work.id = u.work.id := hon.sameAs.id.symm
    obtain ⟨hl, hsame⟩ := h.first hb hc hx hu' ha ha' (by rw [hid]; exact hr) hr'
    have hready : x.readied p = true := hon.readied
    rw [hsame.readied hl.stage, hlast] at hready
    cases hready
  · have hid : x.work.id = u.work.id := hon.sameAs.id.symm
    have hid' : x'.work.id = u'.work.id := hon'.sameAs.id.symm
    obtain ⟨hl, hsame⟩ := h.first hb hc hx hx' ha ha' (by rw [hid]; exact hr) (by rw [hid']; exact hr')
    have hstage : u'.stage = u.stage := by rw [← hon.stage, ← hon'.stage, hl.stage]
    have hwork : u.work.Like u'.work := by
      rw [hon.work, hon'.work]
      exact hsame.after
    exact ⟨u', hu', rfl, h.like hb hu hu' hstage hwork, Or.inl rfl⟩

theorem last (hu : u ∈ ts) (hu' : u' ∈ ts') (hr : rs[u.work.id]? = some r)
    (hr' : rs'[u'.work.id]? = some r) (hlast : u.readied p = false) (hlast' : u'.readied p = false) :
    Turn.Same p v u u' := by
  obtain ⟨t, -, -, hl, ht⟩ := h.matched hb hc hu hu' hr hr' hlast'
  have hsame := h.same hb hc hu hl
  rcases ht with rfl | ht
  · exact hsame
  · rw [← hsame.readied hl.stage, hlast] at ht
    cases ht

/-- Whenever the work of what was submitted in both runs has ended in both, its handles answer the
    same. -/
theorem answers (hr : rs[i]? = some r) (hr' : rs'[j]? = some r) {t t' : Ticket}
    (ht : d.tickets[i]? = some t) (ht' : e.tickets[j]? = some t') (hd : t.isDone = true)
    (hd' : t'.isDone = true) : t.AnswersAs t' := by
  have hop : t.op = t'.op :=
    (h.left.recorded.run.ticket_op h.left.fresh.unused.tickets ht hr).trans
      (h.right.recorded.run.ticket_op h.right.fresh.unused.tickets ht' hr').symm
  rcases h.left.ending hr ht hd with ⟨x, hx, hs⟩ | ⟨u, hu, rfl, hlast, hs⟩ <;>
    rcases h.right.ending hr' ht' hd' with ⟨x', hx', hs'⟩ | ⟨u', hu', rfl, hlast', hs'⟩
  · obtain rfl : x = x' := Except.error.inj (hx.symm.trans hx')
    exact Ticket.answersAs_of_shows hop hd hd' hs hs' ((ofSubmission_like i j p.ownHeap r).outcome _)
  · exact absurd hx (h.right.fits hu' hr' x)
  · exact absurd hx' (h.left.fits hu hr x')
  · have hsame := h.last hb hc hu hu' hr hr' hlast hlast'
    have hv : u'.verdict (p.resize n) = u.verdict p := hsame.verdict.symm
    rw [hv] at hs'
    exact Ticket.answersAs_of_shows hop hd hd' hs hs' (hsame.after.outcome _)

/-- What was submitted in both runs has in the second one each turn that it has in the first one, if the
    second one has come to its end. -/
theorem found (hs' : e.isStopped = true) (hu : u ∈ ts) (hr : rs[u.work.id]? = some r)
    (hr' : rs'[j]? = some r) : ∃ t ∈ ts', t.work.id = j ∧ u.Like v t := by
  obtain ⟨t', ht', hd'⟩ := h.right.ended hs' hr'
  rcases h.right.ending hr' ht' hd' with ⟨x, hx, -⟩ | ⟨u', hu', rfl, hlast, -⟩
  · exact absurd hx (h.left.fits hu hr x)
  · obtain ⟨t, ht, hid, hl, -⟩ := h.matched hb hc hu hu' hr hr' hlast
    exact ⟨t, ht, hid, hl⟩

variable (hs : d.isStopped = true) (hs' : e.isStopped = true)

include hs'

theorem part_of_turn (hu : u ∈ ts) (hio : u.stage = .io) (hr : rs[u.work.id]? = some r)
    (hr' : rs'[j]? = some r) : v.part d.backend r.path = v.part e.backend r.path := by
  obtain ⟨t, ht, hid, hl⟩ := h.found hb hc hs' hu hr hr'
  have hio' : t.stage = .io := hl.stage.trans hio
  have h₀ := h.left.fresh.unused
  have h₀' := h.right.fresh.unused
  have hpath : u.work.path.text = r.path := by
    obtain ⟨x, hx, hpath⟩ := h.left.recorded.path_of_turn h₀ hu
    obtain rfl : r = x := Option.some.inj (hr.symm.trans hx)
    exact hpath
  have hpath' : t.work.path.text = r.path := by
    obtain ⟨id, b, he, -⟩ := hl.work
    rw [he]
    exact hpath
  have hleft := h.left.recorded.part_of_turn h₀ h.left.distinct hb h.left.steady hu hio
  have hright := h.right.recorded.part_of_turn h₀' h.right.distinct hb h.right.steady ht hio'
  have hsame := (h.same hb hc hu hl).part hio
  rw [hpath] at hleft hsame
  rw [hpath'] at hright
  exact hleft.trans (hsame.trans hright.symm)

include hs

theorem part_eq (hr : rs[i]? = some r) (hr' : rs'[j]? = some r) :
    v.part d.backend r.path = v.part e.backend r.path := by
  have h₀ := h.left.fresh.unused
  have h₀' := h.right.fresh.unused
  by_cases hturn : ∃ u ∈ ts, u.stage = .io ∧ u.work.id = i
  · obtain ⟨u, hu, hio, rfl⟩ := hturn
    exact h.part_of_turn hb hc hs' hu hio hr hr'
  by_cases hturn' : ∃ u ∈ ts', u.stage = .io ∧ u.work.id = j
  · obtain ⟨u, hu, hio, rfl⟩ := hturn'
    exact (h.symm.part_of_turn hb hc hs hu hio hr' hr).symm
  -- neither run has touched the path
  have hleft : v.part d.backend r.path = v.part d₀.backend r.path :=
    h.left.recorded.part_of_none h₀ hb h.left.steady fun u hu hio hpath =>
      hturn ⟨u, hu, hio, h.left.recorded.id_of_path h₀ h.left.distinct hu hr hpath⟩
  have hright : v.part e.backend r.path = v.part e₀.backend r.path :=
    h.right.recorded.part_of_none h₀' hb h.right.steady fun u hu hio hpath =>
      hturn' ⟨u, hu, hio, h.right.recorded.id_of_path h₀' h.right.distinct hu hr' hpath⟩
  rw [hleft, hright, h.part]

theorem stats_eq (hperm : rs.Perm rs') : d.stats = e.stats := by
  have h₀ := h.left.fresh.unused
  have h₀' := h.right.fresh.unused
  have hcounted := (h.left.recorded.run.balanced h₀.inBalance).counted
  have hcounted' := (h.right.recorded.run.balanced h₀'.inBalance).counted
  refine Stats.ext_get fun c => ?_
  have hsum := sum_eq_of_perm (fun t => t.share c) hperm (h.left.recorded.run.length h₀.tickets)
    (h.right.recorded.run.length h₀'.tickets) fun hi hj ht ht' => ?_
  · rw [hcounted, hcounted', get_tally, get_tally, hsum]
  · obtain ⟨u, hu, hd⟩ := h.left.ended hs hi
    obtain ⟨u', hu', hd'⟩ := h.right.ended hs' hj
    obtain rfl := Option.some.inj (ht.symm.trans hu)
    obtain rfl := Option.some.inj (ht'.symm.trans hu')
    exact (h.answers hb hc hi hj ht ht' hd hd').share c

end Twins

/-! ### Agreement -/

/-- What two runs over queues of the capacities `m` and `n` agree on. Other submissions may differ. -/
structure Agree (p : Setup σ η κ) (v : Parts σ η τ) (m n : Nat) (d₀ : Dispatcher σ κ)
    (rs : List Submission) (ts : List (Turn σ κ)) (d e₀ : Dispatcher σ κ) (rs' : List Submission)
    (ts' : List (Turn σ κ)) (e : Dispatcher σ κ) : Prop where
  /-- Each submission that is made in both runs has in the end two handles with the same answers. -/
  handles : ∀ (i j : WorkId) (r : Submission), rs[i]? = some r → rs'[j]? = some r →
    ∃ t t', d.tickets[i]? = some t ∧ e.tickets[j]? = some t' ∧ t.AnswersAs t'
  /-- They have them from when its work has ended on, whenever they are asked. -/
  always : ∀ x y, Through (p.resize m) d₀ rs ts d x → Through (p.resize n) e₀ rs' ts' e y →
    ∀ (i j : WorkId) (r : Submission), rs[i]? = some r → rs'[j]? = some r → ∀ t t',
      x.tickets[i]? = some t → y.tickets[j]? = some t' → t.isDone = true → t'.isDone = true →
        t.AnswersAs t'
  /-- The files of these submissions are the same in the end, -/
  files : ∀ r ∈ rs, r ∈ rs' → v.part d.backend r.path = v.part e.backend r.path
  /-- and so are those that neither run was to touch. -/
  others : ∀ f, (∀ r ∈ rs ++ rs', r.path ≠ f) → v.part d.backend f = v.part e.backend f
  /-- If the submissions are the same in whatever order, all files and the counters are. -/
  whole : rs.Perm rs' → (∀ f, v.part d.backend f = v.part e.backend f) ∧ d.stats = e.stats

/-- Over a backend that keeps its files apart, with a codec without a state and with steady heaps: two
    runs on pairwise distinct paths in which no worker crashes agree in the end on all that they have
    in common, in whatever order things have happened and however often a queue was full. In particular
    nothing that becomes of other work, well or badly, changes anything for it. -/
theorem Smooth.agree (hb : p.backend.PerPath v) (hc : p.codec.Pure)
    (h : Smooth (p.resize m) d₀ rs ts d) (h' : Smooth (p.resize n) e₀ rs' ts' e)
    (hs : d.isStopped = true) (hs' : e.isStopped = true) (hshape : d₀.heaps.shape = e₀.heaps.shape)
    (hpart : ∀ f, v.part d₀.backend f = v.part e₀.backend f) :
    Agree p v m n d₀ rs ts d e₀ rs' ts' e := by
  have twins : Twins p v m n d₀ rs ts d e₀ rs' ts' e := ⟨h, h', hshape, hpart⟩
  have hfiles : ∀ r ∈ rs, r ∈ rs' → v.part d.backend r.path = v.part e.backend r.path := by
    intro r hr hr'
    obtain ⟨i, hi⟩ := List.mem_iff_getElem?.mp hr
    obtain ⟨j, hj⟩ := List.mem_iff_getElem?.mp hr'
    exact twins.part_eq hb hc hs hs' hi hj
  have hothers : ∀ f, (∀ r ∈ rs ++ rs', r.path ≠ f) →
      v.part d.backend f = v.part e.backend f := by
    intro f hf
    have hleft := h.untouched hb fun r hr => hf r (List.mem_append_left _ hr)
    have hright := h'.untouched hb fun r hr => hf r (List.mem_append_right _ hr)
    rw [hleft, hright, hpart]
  refine ⟨fun i j r hr hr' => ?_, fun x y hx hy i j r hr hr' t t' ht ht' hd hd' => ?_, hfiles, hothers,
    fun hperm => ⟨fun f => ?_, twins.stats_eq hb hc hs hs' hperm⟩⟩
  · obtain ⟨t, ht, hd⟩ := h.ended hs hr
    obtain ⟨t', ht', hd'⟩ := h'.ended hs' hr'
    exact ⟨t, t', ht, ht', twins.answers hb hc hr hr' ht ht' hd hd'⟩
  · obtain ⟨rs₁, ts₁, hrs, hleft⟩ := h.through hx
    obtain ⟨rs₁', ts₁', hrs', hright⟩ := h'.through hy
    have twins : Twins p v m n d₀ rs₁ ts₁ x e₀ rs₁' ts₁' y := ⟨hleft, hright, hshape, hpart⟩
    exact twins.answers hb hc (hleft.submission hrs ht hr) (hright.submission hrs' ht' hr') ht ht' hd hd'
  · by_cases hf : ∃ r ∈ rs, r.path = f
    · obtain ⟨r, hr, rfl⟩ := hf
      exact hfiles r hr (hperm.mem_iff.mp hr)
    · refine hothers f fun r hr hpath => hf ⟨r, ?_, hpath⟩
      rcases List.mem_append.mp hr with hr | hr
      · exact hr
      · exact hperm.mem_iff.mpr hr

/-! ### Two writes in either order -/

/-- The stopping does not end by beginning anew. -/
theorem halted_of_steps {k : Nat} (h : Steps p d k d') (hh : d.halt ≠ .running) :
    d'.halt ≠ .running := by
  induction h with
  | start => exact hh
  | act _ a hs ih => exact fun he => ih ((running_of_transition (transition_of_step hs)).mp he)
  | call _ m _ ih =>
    rcases m.cases with ⟨a, hs⟩ | hc
    · exact fun he => ih ((running_of_transition (transition_of_step hs)).mp he)
    · rcases hc.halt with he | ⟨he, -⟩
      · rw [he]
        exact ih
      · exact absurd he ih

/-- A stopping that has begun can come to its end. -/
theorem Run.exists_stopped (h₀ : Fresh p d₀) (h : Run p d₀ rs d) (hh : d.halt ≠ .running) :
    ∃ ts d', Recorded p d₀ rs ts d' ∧ d'.isStopped = true := by
  have h₀ := h₀.unused
  obtain ⟨k, d', hsteps, hrest⟩ :=
    Steps.exists_resting (h.holds onItsWay_stable (h₀.holds _)) (.start (p := p) (d := d))
  have hrun := h.trans hsteps.run
  rw [List.append_nil] at hrun
  obtain ⟨ts, hts⟩ := hrun.recorded
  obtain ⟨e, he, -⟩ := (hts.at_rest h₀ hrest).stopped (halted_of_steps hsteps hh)
  refine ⟨ts, d', hts, ?_⟩
  unfold isStopped
  rw [he]

open Backend.Scripted (Store slow_initial)

/-- A dispatcher starts over the heaps and the backend that it was given. -/
theorem starts_over {platform : Platform} {heaps : Heaps} {backend : σ} {codec : κ}
    (h : (start p platform heaps backend codec).answer.toOption = some d) :
    d.heaps = heaps ∧ d.backend = backend := by
  unfold start at h
  split at h
  · cases h
  · split at h
    · cases h
    · split at h
      · cases h
      · dsimp only at h
        split at h
        · cases h
          exact ⟨rfl, rfl⟩
        · cases h
        · cases h

theorem steady_initial : Heaps.Steady .initial := by
  intro f hf s hs
  obtain rfl := List.mem_singleton.mp hf
  cases hs
  exact fun _ _ _ => rfl

/-- A complete run over scripted files in which something is written to pairwise distinct paths. -/
theorem exists_smooth (c : Nat) (cs : List Cue) (hdistinct : ((submitted cs).map Submission.path).Nodup)
    (hwrites : ∀ r ∈ submitted cs, r.op = .write) (hmodest : ModestPayloads (submitted cs))
    (h : ((lz4? c).bind (replay (lz4Setup c) cs)).any
      (fun d => d.beginHalt.halt = .pushing) = true) :
    ∃ d₀ ts d, Smooth (lz4Setup c) d₀ (submitted cs) ts d ∧ d.isStopped = true ∧
      d₀.heaps = .initial ∧ d₀.backend = {} := by
  obtain ⟨d, hd, hhalt⟩ := Option.any_eq_true _ _ |>.mp h
  obtain ⟨d₀, hd₀, hr⟩ := Option.bind_eq_some_iff.mp hd
  have hfresh : Fresh (lz4Setup c) d₀ := fresh_of_start hd₀
  have hinitial := starts_over hd₀
  obtain ⟨ts, d', hts, hstopped⟩ := ((run_of_replay hr).move .beginHalt).exists_stopped hfresh (by
    rw [of_decide_eq_true hhalt]
    simp)
  refine ⟨d₀, ts, d', ⟨hfresh, hts, hdistinct, ?_, fun t ht => ?_⟩, hstopped, hinitial⟩
  · rw [hinitial.1]
    exact steady_initial
  · -- only reads are decompressed
    rw [← Bool.not_eq_true, hts.crashes_iff hfresh.unused Backend.Scripted.tame
      (by rw [hinitial.2]; exact slow_initial) Codec.Admitted.lz4.tame hmodest ht]
    rintro ⟨-, hop, -⟩
    obtain ⟨r, hr, ha⟩ := (hts.origin hfresh.unused ht).asked
    have hwrite := hwrites r (List.mem_of_getElem? hr)
    cases hop.symm.trans (ha.op.trans hwrite)

/-- Two writes over queues of one slot and, submitted in the other order, over queues of two. -/
theorem agree_of_two_writes : ∃ d₀ ts d e₀ ts' e,
    Smooth ((lz4Setup 1).resize 1) d₀ [.write "f" [1, 2] true, .write "g" [3] false] ts d ∧
      Smooth ((lz4Setup 1).resize 2) e₀ [.write "g" [3] false, .write "f" [1, 2] true] ts' e ∧
      d.isStopped = true ∧ e.isStopped = true ∧ d₀.heaps.shape = e₀.heaps.shape ∧
      (∀ f, Backend.Scripted.parts.part d₀.backend f = Backend.Scripted.parts.part e₀.backend f) ∧
      Agree (lz4Setup 1) Backend.Scripted.parts 1 2 d₀ [.write "f" [1, 2] true, .write "g" [3] false]
        ts d e₀ [.write "g" [3] false, .write "f" [1, 2] true] ts' e := by
  have hmodest : ∀ rs : List Submission, rs ⊆ [.write "f" [1, 2] true, .write "g" [3] false] →
      ModestPayloads rs := by
    intro rs hrs path data compressed hr
    have hlen : data.length ≤ 2 := by
      rcases List.mem_cons.mp (hrs hr) with he | he
      · cases he
        decide
      · cases List.mem_singleton.mp he
        decide
    exact (Nat.mul_le_mul_right 110 hlen).trans_lt (by decide)
  obtain ⟨d₀, ts, d, h, hs, hheaps, hbackend⟩ := exists_smooth 1
    [.submit (.write "f" [1, 2] true), .submit (.write "g" [3] false), .act (.push 0), .act (.push 0)]
    (by decide) (by decide) (hmodest _ (List.Subset.refl _)) (by decide +kernel)
  obtain ⟨e₀, ts', e, h', hs', hheaps', hbackend'⟩ := exists_smooth 2
    [.submit (.write "g" [3] false), .submit (.write "f" [1, 2] true), .act (.push 1), .act (.push 0)]
    (by decide) (by decide) (hmodest _ (List.Perm.swap _ _ _).subset) (by decide +kernel)
  have hshape : d₀.heaps.shape = e₀.heaps.shape := by rw [hheaps, hheaps']
  have hpart : ∀ f, Backend.Scripted.parts.part d₀.backend f =
      Backend.Scripted.parts.part e₀.backend f := by
    rw [hbackend, hbackend']
    exact fun _ => rfl
  exact ⟨d₀, ts, d, e₀, ts', e, h, h', hs, hs', hshape, hpart,
    Smooth.agree Backend.Scripted.perPath Codec.pure_lz4 h h' hs hs' hshape hpart⟩

end Dispatcher

end FilePipeline
