import FilePipeline.Proofs.Dispatcher.Order
import FilePipeline.Proofs.Dispatcher.RoundTrip

/-! # The order within a route, and what it gives

`Logged.keeps_order`: work that came in at one queue goes through the I/O stage in that order, and reads
come back through the compression stage in the order of their I/O turns. Over an honest backend it
follows what is found in a file: a plain read gets what the latest plain write has left that was
accepted before it (`Logged.reads_latest`), and of compressed writes the last one that was accepted
has the last word (`Logged.ends_as_last`). In both cases all other I/O turns of writes to the file
come before that of the one write, since they were accepted before it, or after the read, since they
were accepted after it. -/

namespace FilePipeline

/-- Whether the file is to be a frame. -/
def Submission.compressed : Submission → Bool
  | .read _ _ _ compressed => compressed
  | .write _ _ compressed => compressed

namespace Dispatcher

open Backend (Honest)
open Stage (fileOf)

variable {σ η κ ν : Type} {p : Setup σ η κ} {v : View σ η ν} {d d₀ : Dispatcher σ κ}
  {rs : List Submission} {as : List (Stage × WorkId)} {ts : List (Turn σ κ)} {f : ν}
  {a b : WorkId} {data : List UInt8}

/-- The submission with a number is a write of `data` to the file `f`. -/
def WritesTo (v : View σ η ν) (rs : List Submission) (f : ν) (id : WorkId) (data : List UInt8)
    (compressed : Bool) : Prop :=
  ∃ path, rs[id]? = some (.write path data compressed) ∧ v.file path = f

/-- Of the writes to `f` that were accepted before the work `b`, the one with the number `a` is the
    latest. -/
def LatestBefore (v : View σ η ν) (rs : List Submission) (as : List (Stage × WorkId)) (f : ν)
    (a b : WorkId) : Prop :=
  ∃ as₁ s as₂ s' as₃, as = as₁ ++ (s, a) :: (as₂ ++ (s', b) :: as₃) ∧
    ∀ x ∈ as₂, ∀ data compressed, ¬ WritesTo v rs f x.2 data compressed

/-- Of all writes to `f` that were accepted, the one with the number `a` is the last. -/
def LastAccepted (v : View σ η ν) (rs : List Submission) (as : List (Stage × WorkId)) (f : ν)
    (a : WorkId) : Prop :=
  ∃ as₁ s as₂, as = as₁ ++ (s, a) :: as₂ ∧
    ∀ x ∈ as₂, ∀ data compressed, ¬ WritesTo v rs f x.2 data compressed

def EndedOk (d : Dispatcher σ κ) (id : WorkId) : Prop :=
  ∃ t, d.tickets[id]? = some t ∧ t.isDone = true ∧ t.result = .ok ()

theorem Recorded.io_of_endedOk (h₀ : Unused p d₀) (h : Recorded p d₀ rs ts d) {id : WorkId}
    (hok : EndedOk d id) : ∃ u ∈ ioTurns ts, u.work.id = id ∧ u.result p = .ok () := by
  obtain ⟨t, ht, hd, hok⟩ := hok
  exact h.io_of_ok h₀ ht hd hok

/-! ### Turns -/

theorem Recorded.written_of_io (h₀ : Unused p d₀) (hb : p.backend.Honest v)
    (hs : v.sound d₀.backend) (h : Recorded p d₀ rs ts d) {u : Turn σ κ} (hu : u ∈ ioTurns ts)
    (hok : u.result p = .ok ()) {compressed : Bool} (hw : WritesTo v rs f u.work.id data compressed) :
    ∃ bytes, Made p ts u.work.id data compressed bytes ∧
      v.contents (u.effect p u.before.backend) f = some bytes := by
  obtain ⟨path, hr, rfl⟩ := hw
  obtain ⟨hmem, hio⟩ := mem_ioTurns.mp hu
  have ha := (h.origin h₀ hmem).of_submission hr
  have hmade := h.made h₀ hmem hio hr
  have hsound := h.sound_at hb hs hmem
  obtain ⟨d₁, s, w⟩ := u
  obtain rfl : s = .io := hio
  obtain ⟨hall, -⟩ := (Stage.processIo_write_spec d₁.heaps hb hsound ha.op).full hok
  rw [ha.fileOf] at hall
  exact ⟨_, hmade, hall⟩

theorem Recorded.io_of_plain (h₀ : Unused p d₀) (h : Recorded p d₀ rs ts d) {x : Turn σ κ}
    (hx : x ∈ ts) (hh : handsOn x.stage (x.after p) = false) (hplain : x.work.compressed = false) :
    x.stage = .io := by
  rcases h.stage_of_last h₀ hx hh with hio | ⟨-, -, y, -, hon⟩
  · exact hio
  · rcases Turn.op_of_readied hon.readied with ⟨-, -, hc⟩ | ⟨hy, -⟩
    · rw [← hon.sameAs.compressed, hplain] at hc
      cases hc
    · have hstage := hon.stage
      rw [hy] at hstage
      cases hstage

theorem Recorded.writesTo_of_turn (h₀ : Unused p d₀) (h : Recorded p d₀ rs ts d) {x : Turn σ κ}
    (hx : x ∈ ts) (hop : x.work.op = .write) (hf : fileOf v x.work = f) :
    ∃ data compressed, WritesTo v rs f x.work.id data compressed ∧
      x.work.tag.route = if compressed then .compression else .io := by
  obtain ⟨r, hr, ha⟩ := (h.origin h₀ hx).asked
  rw [ha.fileOf] at hf
  cases r with
  | read => rw [ha.op] at hop; cases hop
  | write path data compressed => exact ⟨data, compressed, ⟨path, hr, hf⟩, ha.route⟩

theorem Logged.stage_of_mem (h₀ : Unused p d₀) (h : Logged p d₀ rs as ts d) {s : Stage} {id : WorkId}
    (hmem : (s, id) ∈ as) {r : Submission} (hr : rs[id]? = some r) : s = firstStage r := by
  obtain ⟨r', hr', hs⟩ := h.asked h₀ hmem
  obtain rfl := Option.some.inj (hr.symm.trans hr')
  exact hs.symm

/-! ### What is found in a file -/

/-- The plain read `b` of a file with plain operations only gets what the latest write `a` has put
    there. -/
theorem Logged.reads_latest (h₀ : Unused p d₀) (hb : p.backend.Honest v) (hs : v.sound d₀.backend)
    (h : Logged p d₀ rs as ts d) (hplain : ∀ r ∈ rs, v.file r.path = f → r.compressed = false)
    (ha : WritesTo v rs f a data false) (hlatest : LatestBefore v rs as f a b) (hok : EndedOk d a)
    {path : String} {heap : HeapId} {nullTerminate : Bool}
    (hr : rs[b]? = some (.read path heap nullTerminate false)) (hf : v.file path = f) {t : Ticket}
    (ht : d.tickets[b]? = some t) (hd : t.isDone = true) (htok : t.result = .ok ()) :
    Gives data nullTerminate t := by
  have hrec := h.recorded
  obtain ⟨as₁, s, as₂, s', as₃, rfl, hbetween⟩ := hlatest
  obtain ⟨patha, hra, hfa⟩ := ha
  obtain rfl : s = .io := h.stage_of_mem h₀ (by simp) hra
  obtain rfl : s' = .io := h.stage_of_mem h₀ (by simp) hr
  -- the I/O turns of both, that of the write first
  obtain ⟨u, hu, rfl, hures⟩ := hrec.io_of_endedOk h₀ hok
  obtain ⟨x, hx, rfl, hxres, hxh, hshows⟩ := hrec.turn_of_ok h₀ ht hd htok
  have hax := (hrec.origin h₀ hx).of_submission hr
  have hxio : x.stage = .io := hrec.io_of_plain h₀ hx hxh hax.read.2
  have hmade := hrec.written_of_io h₀ hb hs hu hures ⟨patha, hra, hfa⟩
  have hab : [(.io, u.work.id), (.io, x.work.id)].Sublist
      (as₁ ++ (Stage.io, u.work.id) :: (as₂ ++ (.io, x.work.id) :: as₃)) := by
    refine List.sublist_append_of_sublist_right (List.Sublist.cons_cons _ ?_)
    exact List.sublist_append_of_sublist_right (List.singleton_sublist.mpr List.mem_cons_self)
  obtain ⟨ts₁, ts₂, ts₃, rfl⟩ := h.io_in_order h₀ hu (mem_ioTurns.mpr ⟨hx, hxio⟩) hab
  have huio := (mem_ioTurns.mp hu).2
  -- and no other write has one between the two
  have hquiet : ∀ y ∈ ts₂, y.stage = .io → y.work.op = .write → fileOf v y.work ≠ f := by
    intro y hy hyio hyop hyf
    obtain ⟨data', c, hyw, hroute⟩ := hrec.writesTo_of_turn h₀ (by simp [hy]) hyop hyf
    have hc : c = false := by
      obtain ⟨path', hyr, hyfile⟩ := hyw
      exact hplain _ (List.mem_of_getElem? hyr) hyfile
    subst hc
    exact hbetween _ (h.accepted_between h₀ huio hxio hy hyio hroute) _ _ hyw
  obtain ⟨bytes, rfl, hbytes⟩ := hmade
  rw [← hrec.contents_until hb hs hquiet] at hbytes
  -- so the read finds the payload
  have hsound := hrec.sound_at hb hs hx
  obtain ⟨d₁, s, w⟩ := x
  obtain rfl : s = .io := hxio
  have hbears : Bears p v d₀.codec ([] : List (Turn σ κ)) (.read path heap nullTerminate false) .io
      w := trivial
  obtain ⟨data', buf, hdata', hbuf, hdel, hsize⟩ := serves_of_io hb hsound hax hbears hxres hxh
  rw [hf] at hdata'
  obtain rfl := Option.some.inj (hbytes.symm.trans hdata')
  have hop : t.op = .read := hrec.run.ticket_op h₀.tickets ht hr
  exact gives_of_shows hshows hop htok hbuf hdel hsize

/-- A file to which only compressed writes go ends as what was made of the last one that was
    accepted. -/
theorem Logged.ends_as_last (h₀ : Unused p d₀) (hb : p.backend.Honest v) (hs : v.sound d₀.backend)
    (h : Logged p d₀ rs as ts d)
    (hpacked : ∀ r ∈ rs, v.file r.path = f → r.op = .write ∧ r.compressed = true)
    (ha : WritesTo v rs f a data true) (hlast : LastAccepted v rs as f a) (hok : EndedOk d a) :
    ∃ frame, Made p ts a data true frame ∧ v.contents d.backend f = some frame := by
  have hrec := h.recorded
  obtain ⟨as₁, s, as₂, rfl, hafter⟩ := hlast
  obtain rfl : s = .compression := by
    obtain ⟨path, hr, -⟩ := ha
    exact h.stage_of_mem h₀ (by simp) hr
  obtain ⟨u, hu, rfl, hures⟩ := hrec.io_of_endedOk h₀ hok
  obtain ⟨frame, hmade, hframe⟩ := hrec.written_of_io h₀ hb hs hu hures ha
  obtain ⟨humem, huio⟩ := mem_ioTurns.mp hu
  obtain ⟨ts₁, ts₂, rfl⟩ := List.append_of_mem humem
  refine ⟨frame, hmade, ?_⟩
  rw [← hframe]
  refine hrec.contents_since hb hs fun y hy hyio hyop hyf => ?_
  obtain ⟨data', c, hyw, hroute⟩ := hrec.writesTo_of_turn h₀ (by simp [hy]) hyop hyf
  have hc : c = true := by
    obtain ⟨path, hr, hfile⟩ := hyw
    exact (hpacked _ (List.mem_of_getElem? hr) hfile).2
  subst hc
  exact hafter _ (h.accepted_after h₀ huio hy hyio hroute) _ _ hyw

/-! ### The order within a route -/

/-- That a run with the submissions `rs`, the accepted pushes `as` and the turns `ts` keeps the order
    within each route. -/
structure KeepsOrder (p : Setup σ η κ) (d₀ : Dispatcher σ κ) (rs : List Submission)
    (as : List (Stage × WorkId)) (ts : List (Turn σ κ)) (d : Dispatcher σ κ) : Prop where
  /-- When work has its I/O turn, what was accepted before it at the same queue has had its own or has
      ended. -/
  io : ∀ s a b, [(s, a), (s, b)].Sublist as → ∀ ts₁ u ts₂, ts = ts₁ ++ u :: ts₂ → u.stage = .io →
    u.work.id = b → (∃ x ∈ ts₁, x.stage = .io ∧ x.work.id = a) ∨
      ∃ t, u.before.tickets[a]? = some t ∧ t.isDone = true
  /-- Reads have their turns in the compression stage in the order of their I/O turns, -/
  back : (unframed ts).Sublist (forwarded p ts)
  /-- and end in that order, even if there is no such turn. -/
  ended : ∀ a b, [a, b].Sublist (forwarded p ts) → ∀ t t', d.tickets[a]? = some t →
    d.tickets[b]? = some t' → t'.isDone = true → t.isDone = true
  /-- Over an honest backend a plain read that ends well, of a file with plain operations only, gives
      the payload of the latest write accepted before it, if that one ends well. -/
  reads : ∀ (ν : Type) (v : View σ η ν), p.backend.Honest v → v.sound d₀.backend → ∀ f,
    (∀ r ∈ rs, v.file r.path = f → r.compressed = false) → ∀ a b data, WritesTo v rs f a data false →
    LatestBefore v rs as f a b → EndedOk d a → ∀ path heap nullTerminate,
    rs[b]? = some (.read path heap nullTerminate false) → v.file path = f →
    ∀ t, d.tickets[b]? = some t → t.isDone = true → t.result = .ok () → Gives data nullTerminate t
  /-- A file with compressed writes only is in the end what was made of the last one accepted, if that
      one ends well: with a codec without a state, its frame. -/
  frames : ∀ (ν : Type) (v : View σ η ν), p.backend.Honest v → v.sound d₀.backend → ∀ f,
    (∀ r ∈ rs, v.file r.path = f → r.op = .write ∧ r.compressed = true) → ∀ a data,
    WritesTo v rs f a data true → LastAccepted v rs as f a → EndedOk d a →
    ∃ frame, v.contents d.backend f = some frame ∧ Made p ts a data true frame ∧
      (p.codec.Pure → ∀ k, Frame.pack p.codec k data = .ok frame)

/-- Whatever the capacity, the interleaving, the failures and the crashes are. -/
theorem Logged.keeps_order (h₀ : Fresh p d₀) (h : Logged p d₀ rs as ts d) :
    KeepsOrder p d₀ rs as ts d := by
  have h₀ := h₀.unused
  refine ⟨fun s a b hab ts₁ u ts₂ hts hio hid => ?_, h.back_in_order h₀,
    fun a b hab t t' ht ht' => h.ended_of_ended h₀ hab ht ht',
    fun ν v hb hs f hplain a b data ha hlatest hok path heap nullTerminate hr hf t ht hd htok =>
      h.reads_latest h₀ hb hs hplain ha hlatest hok hr hf ht hd htok, ?_⟩
  · rcases h.before_io h₀ hab hts hio hid with ⟨x, hx, hxid⟩ | hd
    · obtain ⟨hx, hxio⟩ := mem_ioTurns.mp hx
      exact Or.inl ⟨x, hx, hxio, hxid⟩
    · exact Or.inr hd
  · intro ν v hb hs f hpacked a data ha hlast hok
    obtain ⟨frame, hmade, hframe⟩ := h.ends_as_last h₀ hb hs hpacked ha hlast hok
    refine ⟨frame, hframe, hmade, fun hc k => ?_⟩
    obtain ⟨path, hr, -⟩ := ha
    exact Made.payload hc h₀ h.recorded hr hmade k

open Backend.Scripted (Store slowView slow_initial)

/-- The run in which two bytes are written and read back, with the order of its pushes. -/
theorem exists_logged_read_back : ∃ d₀ d as t₁ t₂, Fresh (lz4Setup 1) d₀ ∧ d₀.backend = {} ∧
    Logged (lz4Setup 1) d₀ [.write "f" [1, 2] false, .read "f" 0 true false] as [t₁, t₂] d ∧
    LatestBefore slowView [.write "f" [1, 2] false, .read "f" 0 true false] as "f" 0 1 ∧
    EndedOk d 0 ∧ EndedOk d 1 := by
  obtain ⟨d₀, d₁, w, d, d₂, u, d', h₀, hb₀, hr₁, hw, hid, hstep, hok, ⟨t, ht, hd⟩, hr₂, hu, huid,
    hstep₂, hok₂, t', ht', hd'⟩ := exists_read_back
  have hfresh : Fresh (lz4Setup 1) d₀ := fresh_of_start h₀
  have h₀ := hfresh.unused
  have hwrite := (recorded_of_quiet (by simp) hr₁).turn hw hstep
  have hread := (recorded_of_quiet (by simp) hr₂).turn hu hstep₂
  have hrec : Recorded (lz4Setup 1) d₀ [.write "f" [1, 2] false, .read "f" 0 true false]
      [⟨d₁, .io, w⟩, ⟨d₂, .io, u⟩] d' := hwrite.trans hread
  have hall : ∀ t ∈ [(⟨d₁, .io, w⟩ : Turn Store Unit), ⟨d₂, .io, u⟩],
      t.result (lz4Setup 1) = .ok () := by
    intro t ht
    rcases List.mem_cons.mp ht with rfl | ht
    · exact hok
    · obtain rfl := List.mem_singleton.mp ht
      exact hok₂
  have hcalm : ∀ t ∈ [(⟨d₁, .io, w⟩ : Turn Store Unit), ⟨d₂, .io, u⟩],
      t.crashed (lz4Setup 1) = false := by
    intro t ht
    unfold Turn.crashed
    rw [hall t ht]
    rfl
  have hends : ∀ (id : WorkId) r t, ([.write "f" [1, 2] false, .read "f" 0 true false] :
      List Submission)[id]? = some r → r.path = "f" → d'.tickets[id]? = some t → t.isDone = true →
      EndedOk d' id := fun id r t hr hp ht hd =>
    ⟨t, ht, hd, hrec.result_ok h₀ hr (by rw [hp]; exact ⟨_, rfl⟩) hcalm (fun t ht _ => hall t ht) ht
      hd⟩
  obtain ⟨t₀, ht₀, hkept⟩ := hread.run.kept ht hd
  obtain ⟨as, hlog⟩ := hrec.logged
  refine ⟨d₀, d', as, _, _, hfresh, hb₀, hlog, ?_, hends 0 _ _ rfl rfl ht₀ (hkept.isDone hd),
    hends 1 _ _ rfl rfl ht' hd'⟩
  -- the write was accepted first, since its turn came first
  have hroute : ∀ t ∈ [(⟨d₁, .io, w⟩ : Turn Store Unit), ⟨d₂, .io, u⟩], t.work.tag.route = .io := by
    intro t ht
    obtain ⟨r, hr, ha⟩ := (hrec.origin h₀ ht).asked
    rw [ha.route]
    have hmem := List.mem_of_getElem? hr
    rcases List.mem_cons.mp hmem with rfl | hmem
    · rfl
    · obtain rfl := List.mem_singleton.mp hmem
      rfl
  have hacc := hlog.accepted_of_turn h₀ (mem_ioTurns.mpr ⟨List.mem_cons_self, rfl⟩)
  rw [hroute _ List.mem_cons_self] at hacc
  obtain ⟨as₁, as', rfl⟩ := List.append_of_mem hacc
  rw [← List.nil_append [(⟨d₁, .io, w⟩ : Turn Store Unit), ⟨d₂, .io, u⟩]] at hlog
  have hafter := hlog.accepted_after h₀ rfl (List.mem_singleton_self _) rfl (hroute _ (by simp))
  obtain ⟨as₂, as₃, rfl⟩ := List.append_of_mem hafter
  have hid : w.id = 0 := hid
  have huid : u.id = 1 := huid
  dsimp only at hlog ⊢
  rw [hid, huid] at hlog ⊢
  refine ⟨as₁, .io, as₂, .io, as₃, rfl, ?_⟩
  rintro ⟨s, id⟩ hx data compressed ⟨path, hr, -⟩
  -- the only write is the first submission
  have hid : id = 0 := by
    match id with
    | 0 => rfl
    | 1 => cases hr
    | id + 2 => cases hr
  have hnodup := (hlog.once h₀).1
  rw [List.map_append, List.map_cons, List.map_append] at hnodup
  refine (List.nodup_cons.mp hnodup.of_append_right).1 (List.mem_append_left _ ?_)
  exact List.mem_map.mpr ⟨_, hx, hid⟩

/-- The read gives what the write has put there. -/
theorem keeps_order_of_read_back : ∃ d₀ d as ts, Fresh (lz4Setup 1) d₀ ∧
    Logged (lz4Setup 1) d₀ [.write "f" [1, 2] false, .read "f" 0 true false] as ts d ∧
    KeepsOrder (lz4Setup 1) d₀ [.write "f" [1, 2] false, .read "f" 0 true false] as ts d ∧
    ∃ t, d.tickets[1]? = some t ∧ t.isDone = true ∧ Gives [1, 2] true t := by
  obtain ⟨d₀, d, as, t₁, t₂, hfresh, hb₀, hlog, hlatest, hwrite, t, ht, hd, hok⟩ :=
    exists_logged_read_back
  have hkeeps := Logged.keeps_order hfresh hlog
  refine ⟨d₀, d, as, _, hfresh, hlog, hkeeps, t, ht, hd, ?_⟩
  refine hkeeps.reads _ slowView Backend.Scripted.honest (by rw [hb₀]; exact slow_initial) "f" ?_ 0 1
    [1, 2] ⟨"f", rfl, rfl⟩ hlatest hwrite "f" 0 true rfl rfl t ht hd hok
  intro r hr _
  rcases List.mem_cons.mp hr with rfl | hr
  · rfl
  · obtain rfl := List.mem_singleton.mp hr
    rfl

end Dispatcher

end FilePipeline
