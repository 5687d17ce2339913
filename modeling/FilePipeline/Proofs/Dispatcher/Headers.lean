import FilePipeline.Proofs.Dispatcher.Terminators
import FilePipeline.Proofs.Dispatcher.Unframing
import FilePipeline.Proofs.Stage.Headers

/-! # Compressed reads cannot be forged

A compressed read that has succeeded is as long as the header of its file says, whatever the codec did: it
may write and answer anything, with a state of its own from call to call (`Recorded.unforged`). -/

namespace FilePipeline.Dispatcher

variable {σ η κ : Type} {p : Setup σ η κ} {d₀ d : Dispatcher σ κ} {rs : List Submission}
  {ts : List (Turn σ κ)} {id : WorkId} {t : Ticket} {path : String} {heap : HeapId}
  {nullTerminate : Bool}

theorem Recorded.handed_of_compressed (h₀ : Unused p d₀) (h : Recorded p d₀ rs ts d)
    (hr : rs[id]? = some (.read path heap nullTerminate true)) {u : Turn σ κ} (hu : u ∈ ts)
    (hid : u.work.id = id) (hh : handsOn u.stage (u.after p) = false) :
    u.stage = .compression ∧ ∃ x ∈ ioTurns ts, x.work.id = id ∧ x.HandsOn p .compression u.work := by
  rcases h.stage_of_last h₀ hu hh with hio | ⟨hc, -, x, hx, hon⟩
  · -- the I/O stage would have handed it on
    obtain ⟨hop, -, hcompressed⟩ := h.asked_of_read h₀ hr hu hid
    rw [hio] at hh
    unfold handsOn at hh
    rw [(u.after_sameAs p).op, (u.after_sameAs p).compressed, hop, hcompressed] at hh
    cases hh
  · exact ⟨hc, x, hx, hon.sameAs.id.symm.trans hid, hon⟩

/-- What is true of a compressed read that has succeeded, by the file that it has read. -/
structure Unforged (p : Setup σ η κ) (d₀ : Dispatcher σ κ) (ts : List (Turn σ κ)) (id : WorkId)
    (path : String) (nullTerminate : Bool) (t : Ticket) : Prop where
  /-- Its size is the length in the header of what it has loaded in its I/O turn. If the backend does what
      it reports, whatever sizes it tells, that is the header of the file. -/
  size : ∃ u ∈ ioTurns ts, u.work.id = id ∧
    Frame.readHeader (u.after p).buffer.bytes = .ok t.size ∧
    ∀ {ν : Type} (v : View σ η ν), p.backend.HonestButSizes v → v.sound d₀.backend →
      ∃ file, v.contents u.before.backend (v.file path) = some file ∧
        Frame.readHeader file = .ok t.size
  /-- Until its buffer is taken it shows as many bytes, with a zero behind them if one was asked for. -/
  buffer : ¬ t.HandedOver → ∃ data, t.buffer = some data ∧ data.length = t.size ∧
    (nullTerminate = true → t.terminated = some (data ++ [0]))

/-- **No codec can forge a read**: it is confined whenever it is given a frame, and a compressed read that
    succeeds is what the header of its file says. -/
theorem Recorded.unforged (p : Setup σ η κ) :
    (∀ k frame dst, Frame.Confined p.codec k frame dst) ∧
      ∀ {d₀ d : Dispatcher σ κ} {rs : List Submission} {ts : List (Turn σ κ)} {id : WorkId} {t : Ticket}
        {path : String} {heap : HeapId} {nullTerminate : Bool},
        Fresh p d₀ → Recorded p d₀ rs ts d → rs[id]? = some (.read path heap nullTerminate true) →
        d.tickets[id]? = some t → t.isDone = true → t.result = .ok () →
        Unforged p d₀ ts id path nullTerminate t := by
  refine ⟨Frame.confined p.codec, ?_⟩
  intro d₀ d rs ts id t path heap nullTerminate h₀ h hr ht hd hok
  replace h₀ := h₀.unused
  obtain ⟨u, hu, hid, hres, hh, hshows⟩ := h.turn_of_ok h₀ ht hd hok
  obtain ⟨hop, hnull, -⟩ := h.asked_of_read h₀ hr hu hid
  obtain ⟨hc, x, hx, hidx, hon⟩ := h.handed_of_compressed h₀ hr hu hid hh
  obtain ⟨hafter, hresult⟩ := Turn.eq_processCompression (p := p) hc
  obtain ⟨b, hb, hheader, hsize, hzero⟩ := Stage.header_of_decompressed hop (hresult.symm.trans hres)
  rw [← hafter] at hb hsize
  rw [hnull] at hzero
  have htsize : t.size = b.bytes.length := hshows.size.trans hsize
  refine ⟨⟨x, hx, hidx, ?_, fun v hv hs => ?_⟩, fun hkept => ?_⟩
  · rw [← hon.work, htsize]
    exact hheader
  · -- what was loaded is the front of the file
    obtain ⟨hmem, hio⟩ := mem_ioTurns.mp hx
    obtain ⟨hopx, -, hcompressed⟩ := h.asked_of_read h₀ hr hmem hidx
    obtain ⟨hafterx, hresultx⟩ := Turn.eq_processIo (p := p) hio
    have hokx := hresultx.symm.trans (Turn.readied_iff.mp hon.readied).1
    obtain ⟨file, n, hfile, hfront⟩ :=
      Stage.processIo_front hv (h.sound_before hv hs hmem) hopx hcompressed hokx
    have hasked : AskedFor p (.read path heap nullTerminate true) x.work :=
      (h.origin h₀ hmem).of_submission (by rw [hidx]; exact hr)
    rw [hasked.fileOf] at hfile
    rw [← hafterx, ← hon.work] at hfront
    rw [hfront, ← htsize] at hheader
    exact ⟨file, hfile, Frame.readHeader_of_take hheader⟩
  · have hbuf : t.look.1.buffer = .owned b := (hshows.buffer.resolve_right hkept).trans hb
    refine ⟨b.bytes, ?_, htsize.symm, fun hasked => ?_⟩
    · unfold Ticket.buffer
      rw [show t.look.1.result = .ok () from hok, hbuf]
      rfl
    · rw [Ticket.terminated_of_read (h.run.ticket_op h₀.tickets ht hr),
        show t.outcome.buffer = _ from hbuf]
      exact hzero hasked

open Backend.Scripted (Store slow_initial slow_put slowView)

/-- A frame of one byte that is read well. -/
theorem unforged_of_tiny_frame : ∃ d₀ d ts t, Fresh (lz4Setup 1) d₀ ∧
    (lz4Setup 1).backend.HonestButSizes slowView ∧ slowView.sound d₀.backend ∧
    Recorded (lz4Setup 1) d₀ [.read "f" 0 false true] ts d ∧ d.tickets[0]? = some t ∧
    t.isDone = true ∧ t.result = .ok () ∧ Unforged (lz4Setup 1) d₀ ts 0 "f" false t ∧ t.size = 1 := by
  obtain ⟨d₀, d₁, w, d₂, u, d, t, hfresh, hb₀, hrec, hid, hfile, -, ht, hd, hok⟩ :=
    exists_read_unframed
  have hv : (lz4Setup 1).backend.HonestButSizes slowView := Backend.Scripted.honest.butSizes
  have hs : slowView.sound d₀.backend := by
    rw [hb₀]
    exact slow_put slow_initial _ _
  have hall := (Recorded.unforged (lz4Setup 1)).2 hfresh hrec rfl ht hd hok
  refine ⟨d₀, d, _, t, hfresh, hv, hs, hrec, ht, hd, hok, hall, ?_⟩
  obtain ⟨x, hx, hidx, -, hheader⟩ := hall.size
  obtain rfl := hrec.eq_of_io hfresh.unused hx (mem_ioTurns.mpr ⟨List.mem_cons_self, rfl⟩)
    (hidx.trans hid.symm)
  obtain ⟨file, hcontents, hsize⟩ := hheader slowView hv hs
  obtain rfl := Option.some.inj (hfile.symm.trans hcontents)
  exact (Except.ok.inj hsize).symm

end FilePipeline.Dispatcher
