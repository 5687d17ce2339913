import FilePipeline.Proofs.Dispatcher.Refinement

/-! # Where work comes from

Whatever the backend and the codec do: the work that a stage is to process is as it was submitted, or as
a turn of the other stage has left it that found it as it was submitted (`Recorded.origin`), since no
work is handed on twice. So what a write puts into its file was made of its payload in that turn
(`Recorded.made`), and work that has ended well has been through the I/O stage
(`Recorded.io_of_ok`). -/

namespace FilePipeline.Dispatcher

variable {σ η κ : Type} {p : Setup σ η κ} {d d₀ : Dispatcher σ κ} {rs : List Submission}
  {ts : List (Turn σ κ)} {s : Stage} {w : Work} {r : Submission}

/-- Work as it was submitted, at the first stage of its route. -/
def AsSubmitted (p : Setup σ η κ) (rs : List Submission) (s : Stage) (w : Work) : Prop :=
  ∃ r path, rs[w.id]? = some r ∧ PathField.ofString? r.path = .ok path ∧ s = firstStage r ∧
    w = { Work.ofSubmission w.id p.ownHeap r with path }

/-- Work as the turn `t` has handed it on. -/
structure Turn.HandsOn (p : Setup σ η κ) (t : Turn σ κ) (s : Stage) (w : Work) : Prop where
  stage : t.stage.peer = s
  readied : t.readied p = true
  work : w = t.after p

/-- Where the work comes from that a stage is to process after the submissions `rs` and the turns
    `ts`. -/
def Origin (p : Setup σ η κ) (rs : List Submission) (ts : List (Turn σ κ)) (s : Stage) (w : Work) :
    Prop :=
  AsSubmitted p rs s w ∨ ∃ t ∈ ts, t.HandsOn p s w ∧ AsSubmitted p rs t.stage t.work

/-! ### Turns -/

theorem Turn.after_sameAs (p : Setup σ η κ) (t : Turn σ κ) : (t.after p).SameAs t.work :=
  sameAs_of_processing (p := p) (d := t.before) (s := t.stage) (r := t.result p) rfl

theorem Turn.op_of_readied {t : Turn σ κ} (h : t.readied p = true) :
    (t.stage = .io ∧ t.work.op = .read ∧ t.work.compressed = true) ∨
      (t.stage = .compression ∧ t.work.op = .write) := by
  have hsame := t.after_sameAs p
  have hh := (Turn.readied_iff.mp h).2
  cases hs : t.stage with
  | io =>
    rw [hs] at hh
    unfold handsOn at hh
    simp only [Bool.and_eq_true, beq_iff_eq] at hh
    exact Or.inl ⟨rfl, hsame.op ▸ hh.1, hsame.compressed ▸ hh.2⟩
  | compression =>
    rw [hs] at hh
    exact Or.inr ⟨rfl, hsame.op ▸ beq_iff_eq.mp hh⟩

theorem Turn.io_of_readied {t : Turn σ κ} (h : t.readied p = true) (hop : t.work.op = .read) :
    t.stage = .io ∧ t.work.compressed = true := by
  rcases Turn.op_of_readied h with ⟨hs, -, hc⟩ | ⟨-, hwrite⟩
  · exact ⟨hs, hc⟩
  · cases hop.symm.trans hwrite

theorem Turn.compression_of_readied {t : Turn σ κ} (h : t.readied p = true)
    (hop : t.work.op = .write) : t.stage = .compression := by
  rcases Turn.op_of_readied h with ⟨-, hread, -⟩ | ⟨hs, -⟩
  · cases hop.symm.trans hread
  · exact hs

theorem Turn.HandsOn.sameAs {t : Turn σ κ} (h : t.HandsOn p s w) : w.SameAs t.work :=
  h.work ▸ t.after_sameAs p

theorem Turn.HandsOn.not_readied {t u : Turn σ κ} (h : t.HandsOn p u.stage u.work) :
    u.readied p = false := by
  by_contra hne
  have hu := eq_true_of_ne_false hne
  have hsame : t.stage = u.stage := by
    cases hop : t.work.op with
    | read =>
      exact (Turn.io_of_readied h.readied hop).1.trans
        (Turn.io_of_readied hu (h.sameAs.op.trans hop)).1.symm
    | write =>
      exact (Turn.compression_of_readied h.readied hop).trans
        (Turn.compression_of_readied hu (h.sameAs.op.trans hop)).symm
  have hpeer := h.stage
  rw [hsame] at hpeer
  cases hs : u.stage <;> rw [hs] at hpeer <;> cases hpeer

/-! ### Submissions -/

theorem AsSubmitted.later (h : AsSubmitted p rs s w) (rs' : List Submission) :
    AsSubmitted p (rs ++ rs') s w := by
  obtain ⟨r, path, hr, h⟩ := h
  exact ⟨r, path, (List.getElem?_append_left (List.getElem?_eq_some_iff.mp hr).1).trans hr, h⟩

theorem AsSubmitted.firstStage (h : AsSubmitted p rs s w) (hr : rs[w.id]? = some r) :
    firstStage r = s := by
  obtain ⟨r', path, hr', -, hs, -⟩ := h
  obtain rfl := Option.some.inj (hr.symm.trans hr')
  exact hs.symm

theorem AsSubmitted.asked (h : AsSubmitted p rs s w) : ∃ r, rs[w.id]? = some r ∧ AskedFor p r w := by
  obtain ⟨r, path, hr, hpath, -, hw⟩ := h
  refine ⟨r, hr, path, hpath, ?_⟩
  rw [← hw]
  exact .refl w

theorem AsSubmitted.payload {path : String} {data : List UInt8} {compressed : Bool}
    (h : AsSubmitted p rs s w) (hr : rs[w.id]? = some (.write path data compressed)) :
    w.buffer = .caller data := by
  obtain ⟨r', f, hr', -, -, hw⟩ := h
  obtain rfl := Option.some.inj (hr.symm.trans hr')
  rw [hw]
  rfl

/-! ### Origins -/

namespace Origin

theorem later (h : Origin p rs ts s w) (rs' : List Submission) : Origin p (rs ++ rs') ts s w := by
  rcases h with h | ⟨t, ht, hon, h⟩
  · exact Or.inl (h.later rs')
  · exact Or.inr ⟨t, ht, hon, h.later rs'⟩

theorem mono {ts' : List (Turn σ κ)} (h : Origin p rs ts s w) (hts : ts ⊆ ts') :
    Origin p rs ts' s w := by
  rcases h with h | ⟨t, ht, h⟩
  · exact Or.inl h
  · exact Or.inr ⟨t, hts ht, h⟩

theorem asked (h : Origin p rs ts s w) : ∃ r, rs[w.id]? = some r ∧ AskedFor p r w := by
  rcases h with h | ⟨t, -, hon, h⟩
  · exact h.asked
  · obtain ⟨r, hr, ha⟩ := h.asked
    exact ⟨r, by rw [hon.sameAs.id]; exact hr, ha.sameAs hon.sameAs⟩

theorem of_submission (h : Origin p rs ts s w) (hr : rs[w.id]? = some r) : AskedFor p r w := by
  obtain ⟨r', hr', ha⟩ := h.asked
  obtain rfl := Option.some.inj (hr.symm.trans hr')
  exact ha

theorem of_readied {t : Turn σ κ} (h : Origin p rs ts t.stage t.work) (ht : t.readied p = true) :
    AsSubmitted p rs t.stage t.work := by
  rcases h with h | ⟨u, -, hon, -⟩
  · exact h
  · cases ht.symm.trans hon.not_readied

/-- Work that is not at the first stage of its route was handed on by the other stage. -/
theorem handed (h : Origin p rs ts s w) (hr : rs[w.id]? = some r) (hne : firstStage r ≠ s) :
    ∃ t ∈ ts, t.HandsOn p s w ∧ AsSubmitted p rs t.stage t.work := by
  rcases h with h | h
  · exact absurd (h.firstStage hr) hne
  · exact h

end Origin

theorem account_origin : Account p d₀ (Origin p) where
  asked := by
    intro rs ts d r path _ hpath
    refine Or.inl ⟨r, path, ?_, hpath, rfl, ?_⟩
    · cases r <;> simp [Work.ofSubmission]
    · cases r <;> rfl
  ready := by
    intro rs ts d s w w' d₁ _ hw hP hp hh
    have hready : (⟨d, s, w⟩ : Turn σ κ).readied p = true := by
      rw [Turn.readied_iff, Turn.result_eq (t := ⟨d, s, w⟩) hp, Turn.after_eq (t := ⟨d, s, w⟩) hp]
      exact ⟨rfl, hh⟩
    refine Or.inr ⟨⟨d, s, w⟩, List.mem_append_right _ List.mem_cons_self, ⟨rfl, hready, ?_⟩, ?_⟩
    · rw [Turn.after_eq (t := ⟨d, s, w⟩) hp]
    · exact Origin.of_readied (t := ⟨d, s, w⟩) hP hready
  later r h := h.later [r]
  others t _ h := h.mono (List.subset_append_left _ _)

theorem Recorded.origin_at (h₀ : Unused p d₀) (h : Recorded p d₀ rs ts d)
    {ts₁ ts₂ : List (Turn σ κ)} {t : Turn σ κ} (hts : ts = ts₁ ++ t :: ts₂) :
    Origin p rs ts₁ t.stage t.work := by
  obtain ⟨rs₁, ⟨rs₂, rfl⟩, ho⟩ := account_origin.at_turn h₀ h hts
  exact ho.later rs₂

theorem Recorded.origin (h₀ : Unused p d₀) (h : Recorded p d₀ rs ts d) {t : Turn σ κ} (ht : t ∈ ts) :
    Origin p rs ts t.stage t.work := by
  obtain ⟨ts₁, ts₂, rfl⟩ := List.append_of_mem ht
  exact (h.origin_at h₀ rfl).mono (List.subset_append_left _ _)

theorem Recorded.handed_by_io (h₀ : Unused p d₀) (h : Recorded p d₀ rs ts d) {u : Turn σ κ}
    (hu : u ∈ ts) (hc : u.stage = .compression) (hop : u.work.op = .read) :
    ∃ x ∈ ioTurns ts, x.HandsOn p .compression u.work := by
  have ho := h.origin h₀ hu
  rw [hc] at ho
  obtain ⟨r, hr, ha⟩ := ho.asked
  have hread : r.op = .read := ha.op.symm.trans hop
  have hfirst : firstStage r ≠ .compression := by
    cases r with
    | read => exact fun he => by cases he
    | write => cases hread
  obtain ⟨x, hx, hon, -⟩ := ho.handed hr hfirst
  have hio := (Turn.io_of_readied hon.readied (hon.sameAs.op.symm.trans hop)).1
  exact ⟨x, mem_ioTurns.mpr ⟨hx, hio⟩, hon⟩

/-! ### The bytes of a write -/

/-- The bytes that the write with a number is to put into its file: its payload, or what a turn of the
    compression stage has made of it. -/
def Made (p : Setup σ η κ) (ts : List (Turn σ κ)) (id : WorkId) (data : List UInt8) :
    Bool → List UInt8 → Prop
  | false, bytes => bytes = data
  | true, bytes => ∃ c ∈ ts, c.stage = .compression ∧ c.work.id = id ∧ c.work.buffer.bytes = data ∧
      c.result p = .ok () ∧ (c.after p).buffer.bytes = bytes

theorem Made.payload (hc : p.codec.Pure) (h₀ : Unused p d₀) (h : Recorded p d₀ rs ts d) {id : WorkId}
    {path : String} {data bytes : List UInt8} {compressed : Bool}
    (hr : rs[id]? = some (.write path data compressed)) (hm : Made p ts id data compressed bytes)
    (k : κ) : Payload p.codec k data compressed bytes := by
  cases compressed with
  | false => exact hm
  | true =>
    obtain ⟨c, hmem, hs, hid, hdata, hres, hbytes⟩ := hm
    have ha : AskedFor p (.write path data true) c.work :=
      (h.origin h₀ hmem).of_submission (by rw [hid]; exact hr)
    have hop : c.work.op = .write := ha.op
    obtain ⟨d₁, s, w⟩ := c
    obtain rfl : s = .compression := hs
    obtain ⟨b, hpack, hwork, -⟩ :=
      (Stage.processCompression_write_spec d₁.heaps hc k d₁.codec hop).full hres
    have hafter : (Turn.after p ⟨d₁, .compression, w⟩).buffer = .owned b :=
      congrArg Work.buffer hwork
    rw [hafter] at hbytes
    rw [show w.buffer.bytes = data from hdata] at hpack
    show Frame.pack p.codec k data = .ok bytes
    rw [hpack, ← hbytes]
    rfl

/-- What a write has in its I/O turn was made of its payload. -/
theorem Recorded.made (h₀ : Unused p d₀) (h : Recorded p d₀ rs ts d) {t : Turn σ κ} (ht : t ∈ ts)
    (hio : t.stage = .io) {path : String} {data : List UInt8} {compressed : Bool}
    (hr : rs[t.work.id]? = some (.write path data compressed)) :
    Made p ts t.work.id data compressed t.work.buffer.bytes := by
  have ho := h.origin h₀ ht
  rw [hio] at ho
  cases compressed with
  | false =>
    rcases ho with ho | ⟨c, -, hon, ho⟩
    · rw [ho.payload hr]
      rfl
    · -- plain work does not come from the compression stage
      have hr' : rs[c.work.id]? = some (.write path data false) := by
        rw [← hon.sameAs.id]
        exact hr
      have hstage := hon.stage
      rw [← ho.firstStage hr'] at hstage
      cases hstage
  | true =>
    obtain ⟨c, hc, hon, ho⟩ := ho.handed hr (by simp [Dispatcher.firstStage])
    have hid : c.work.id = t.work.id := hon.sameAs.id.symm
    have hwrite : c.work.op = .write :=
      hon.sameAs.op.symm.trans ((h.origin h₀ ht).of_submission hr).op
    have hstage := Turn.compression_of_readied hon.readied hwrite
    refine ⟨c, hc, hstage, hid, ?_, (Turn.readied_iff.mp hon.readied).1, by rw [hon.work]⟩
    rw [ho.payload (by rw [hid]; exact hr)]
    rfl

/-! ### Success -/

theorem Recorded.turn_of_ok (h₀ : Unused p d₀) (h : Recorded p d₀ rs ts d) {id : WorkId} {t : Ticket}
    (ht : d.tickets[id]? = some t) (hd : t.isDone = true) (hok : t.result = .ok ()) :
    ∃ u ∈ ts, u.work.id = id ∧ u.result p = .ok () ∧ handsOn u.stage (u.after p) = false ∧
      t.Shows ((u.after p).outcome (.ok ())) := by
  obtain ⟨o, hshows, hend⟩ := h.ending h₀ ht hd
  have hores : o.result = .ok () := hshows.result.symm.trans hok
  cases hend with
  | unfit | crashed | dropped => cases hores
  | @turn u e hu hid hres hh =>
    obtain rfl : e = .ok () := hores
    exact ⟨u, hu, hid, hres, hh rfl, hshows⟩

theorem Recorded.stage_of_last (h₀ : Unused p d₀) (h : Recorded p d₀ rs ts d) {u : Turn σ κ}
    (hu : u ∈ ts) (hh : handsOn u.stage (u.after p) = false) :
    u.stage = .io ∨ u.stage = .compression ∧ u.work.op = .read ∧
      ∃ x ∈ ioTurns ts, x.HandsOn p .compression u.work := by
  cases hs : u.stage with
  | io => exact Or.inl rfl
  | compression =>
    have hop : u.work.op = .read := by
      rw [hs] at hh
      unfold handsOn at hh
      rw [(u.after_sameAs p).op] at hh
      cases hop : u.work.op with
      | read => rfl
      | write => rw [hop] at hh; cases hh
    exact Or.inr ⟨rfl, hop, h.handed_by_io h₀ hu hs hop⟩

theorem Recorded.io_of_ok (h₀ : Unused p d₀) (h : Recorded p d₀ rs ts d) {id : WorkId} {t : Ticket}
    (ht : d.tickets[id]? = some t) (hd : t.isDone = true) (hok : t.result = .ok ()) :
    ∃ u ∈ ioTurns ts, u.work.id = id ∧ u.result p = .ok () := by
  obtain ⟨u, hu, hid, hres, hh, -⟩ := h.turn_of_ok h₀ ht hd hok
  rcases h.stage_of_last h₀ hu hh with hio | ⟨-, -, x, hx, hon⟩
  · exact ⟨u, mem_ioTurns.mpr ⟨hu, hio⟩, hid, hres⟩
  · exact ⟨x, hx, hon.sameAs.id.symm.trans hid, (Turn.readied_iff.mp hon.readied).1⟩

end FilePipeline.Dispatcher
