import FilePipeline.Proofs.Dispatcher.RoundTrip
import FilePipeline.Proofs.Frame.Accepted
import FilePipeline.Proofs.Stage.Custody
import FilePipeline.Proofs.Stage.Errors

/-! # Compressed reads of arbitrary files

What a compressed read makes of the bytes in its file, whoever put them there. With the LZ4 codec it
succeeds exactly if they are a frame, with the payload of that frame. Anything else is an error of
the codec (`Recorded.unframes`). -/

namespace FilePipeline.Dispatcher

open Backend (Honest)

variable {σ η ν : Type} {p : Setup σ η Unit} {v : View σ η ν} {d d₀ : Dispatcher σ Unit}
  {rs : List Submission} {ts : List (Turn σ Unit)} {frame data : List UInt8} {id : WorkId}
  {path : String} {heap : HeapId} {nullTerminate : Bool}

/-- The outcome has a buffer with `data`. -/
def Carries (data : List UInt8) (nullTerminate : Bool) (o : Outcome) : Prop :=
  ∃ b, o.buffer = .owned b ∧ b.Delivers data nullTerminate ∧ o.size = data.length

/-- What a compressed read of a file that holds `frame` shows in the end. -/
structure Unframed (frame : List UInt8) (nullTerminate : Bool) (t : Ticket) : Prop where
  /-- It has succeeded with `data` exactly if the file holds a frame of `data`; -/
  accepted : ∃ o, t.Shows o ∧ ∀ data, t.result = .ok () ∧ Carries data nullTerminate o ↔
    Frame.IsFrame frame data
  /-- then its ticket gives `data` to the client, and no header was found implausible. -/
  given : ∀ data, Frame.IsFrame frame data → Gives data nullTerminate t ∧
    Frame.checkHeader Codec.lz4 () frame = .ok data.length
  /-- In every other case it has failed with an error of the codec. -/
  rejected : (∀ data, ¬ Frame.IsFrame frame data) →
    ∃ e, t.result = .error (.codec e) ∧ t.statusCode = -2

/-! ### The turn that unframes -/

/-- The ways in which the compression stage ends a read of `frame`. -/
theorem unframed_of_turn {t : Ticket} {o : Outcome} {w w' : Work} {r : Except WorkError Unit}
    (hshows : t.Shows o) (hop : t.op = .read) (ho : o = w'.outcome r)
    (hn : w.nullTerminate = nullTerminate) {result : Attempt WorkError Unit}
    (hr : result = Attempt.ofExcept r)
    (hfull : result = .ok () → ∃ data b, Frame.unpack Codec.lz4 () frame = .ok data ∧
      w' = { w with buffer := .owned b, size := data.length } ∧ b.Delivers data w.nullTerminate)
    (hserved : result =
      Attempt.mapError .codec ((Frame.unpack Codec.lz4 () frame).map fun _ => ())) :
    Unframed frame nullTerminate t := by
  subst ho hr hn
  have hresult : t.result = r := hshows.result
  cases r with
  | ok u =>
    obtain ⟨data, b, hunpack, rfl, hdel⟩ := hfull rfl
    have hframe := Frame.unpack_iff.mp hunpack
    have hcarries : Carries data w.nullTerminate
        (({ w with buffer := .owned b, size := data.length } : Work).outcome (.ok u)) :=
      ⟨b, rfl, hdel, rfl⟩
    refine ⟨⟨_, hshows, fun data' => ⟨?_, fun h => ?_⟩⟩, fun data' h => ?_, fun h => ?_⟩
    · rintro ⟨-, b', hb', hdel', -⟩
      obtain rfl : b = b' := WorkBuffer.owned.inj hb'
      rwa [← hdel'.bytes, hdel.bytes]
    · obtain rfl := hframe.unique h
      exact ⟨hresult, hcarries⟩
    · obtain rfl := hframe.unique h
      exact ⟨gives_of_shows hshows hop hresult rfl hdel rfl, hframe.checkHeader⟩
    · exact absurd hframe (h data)
  | error e =>
    have hno : ∀ data, ¬ Frame.IsFrame frame data := by
      intro data h
      rw [h.unpack] at hserved
      cases hserved
    refine ⟨⟨_, hshows, fun data => ⟨fun h => ?_, fun h => absurd h (hno data)⟩⟩,
      fun data h => absurd h (hno data), fun _ => ?_⟩
    · rw [hresult] at h
      cases h.1
    · cases hunpack : Frame.unpack Codec.lz4 () frame with
      | ok data => exact absurd (Frame.unpack_iff.mp hunpack) (hno data)
      | error f =>
        rw [hunpack] at hserved
        rcases f with e' | c
        · cases hserved
          refine ⟨e', hresult, ?_⟩
          unfold Ticket.statusCode
          rw [hresult]
          rfl
        · cases hserved

/-- A compressed read whose I/O turn has gone well, and to which neither a crash nor a refusal of
    memory happens, comes to its end, and then it has unframed what its file held in that turn. -/
theorem Recorded.unframes (h₀ : Fresh p d₀) (hl : p.codec = Codec.lz4) (hb : p.backend.Honest v)
    (hs : v.sound d₀.backend) (h : Recorded p d₀ rs ts d)
    (hr : rs[id]? = some (.read path heap nullTerminate true)) {u : Turn σ Unit}
    (hu : u ∈ ioTurns ts) (hid : u.work.id = id) (hok : u.result p = .ok ())
    (hfile : v.contents u.before.backend (v.file path) = some frame)
    (hcalm : ∀ t ∈ ts, t.crashed p = false)
    (hmemory : ∀ t ∈ ts, t.work.id = id → ∀ e, t.result p ≠ Attempt.fail (.memory e)) :
    EndsWith p d id (Unframed frame nullTerminate) := by
  have h₀ := h₀.unused
  have hc : p.codec.Pure := hl ▸ Codec.pure_lz4
  have hlt := (List.getElem?_eq_some_iff.mp hr).1
  refine ⟨fun n d' => h.ends h₀ hlt, fun t ht hd => ?_⟩
  obtain ⟨hmem, hio⟩ := mem_ioTurns.mp hu
  -- what is known of its work in any of its turns
  have htold : ∀ x ∈ ts, x.work.id = id → AskedFor p (.read path heap nullTerminate true) x.work ∧
      Bears p v () ts (.read path heap nullTerminate true) x.stage x.work := by
    rintro x hx rfl
    exact (h.told hb hc hs h₀ hx ()).of_submission hr
  have hop : t.op = .read := h.run.ticket_op h₀.tickets ht hr
  obtain ⟨o, hshows, hend⟩ := h.ending h₀ ht hd
  have hne := hend.ne_abandoned h₀ hcalm
  cases hend with
  | crashed | dropped => exact absurd rfl hne
  | unfit hr' he =>
    obtain ⟨⟨path', hpath, -⟩, -⟩ := htold u hmem hid
    rw [hr] at hr'
    cases hr'
    rw [hpath] at he
    cases he
  | @turn x r hx hxid hres hh =>
    obtain ⟨ha, hB⟩ := htold x hx hxid
    obtain ⟨d₁, s, w⟩ := x
    cases s with
    | io =>
      -- this is the turn that went well, so the work was handed on
      obtain rfl := h.eq_of_io h₀ (mem_ioTurns.mpr ⟨hx, rfl⟩) hu (hxid.trans hid.symm)
      rw [hok] at hres
      cases r with
      | error e => cases hres
      | ok =>
        have hsame := Stage.work_processIo p d₁.heaps d₁.backend w
        have hno : ((Stage.processIo p d₁.heaps d₁.backend w).work.op == .read &&
            (Stage.processIo p d₁.heaps d₁.backend w).work.compressed) = false := hh rfl
        rw [hsame.op, hsame.compressed, ha.op, ha.read.2] at hno
        cases hno
    | compression =>
      obtain ⟨-, y, hy, hyid, hbytes⟩ := hB
      obtain rfl := h.eq_of_io h₀ hy hu (hyid.trans (hxid.trans hid.symm))
      have hbytes : w.buffer.bytes = frame := Option.some.inj (hbytes.symm.trans hfile)
      have hspec := Stage.processCompression_read_spec (p := p) d₁.heaps hc () d₁.codec ha.op
      rw [hbytes] at hspec
      have hfull := hspec.full
      have hserved := hspec.served.resolve_left fun ⟨e, he⟩ => hmemory _ hx hxid e he
      rw [hl] at hfull hserved
      exact unframed_of_turn hshows hop rfl ha.read.1 hres hfull hserved

/-! ### A frame of one byte -/

open Backend.Scripted (Store slowView slow_initial slow_put)

/-- The frame of the byte 65. -/
def tinyFrame : List UInt8 := [1, 0, 0, 0, 16, 65]

theorem isFrame_tinyFrame : Frame.IsFrame tinyFrame [65] := by
  have h : Frame.IsFrame (Frame.lz4Frame [65]) [65] := Frame.isFrame_lz4Frame (by decide)
  have he : Frame.lz4Frame [65] = tinyFrame := by decide +kernel
  rwa [he] at h

/-- A dispatcher that was just started with the LZ4 codec over heaps and one file, if it can be. -/
def holding? (hs : Heaps) (frame : List UInt8) : Option (Dispatcher Store Unit) :=
  (start (lz4Setup 1) ⟨⟨[], 1⟩, fun _ => none⟩ hs (({} : Store).put "f" frame) ()).answer.toOption

/-- A run up to the I/O turn of a compressed read, and how it goes on to that of the compression
    worker if the read goes well. -/
theorem exists_read_begun (hs : Heaps) (heap : HeapId) (frame : List UInt8) :
    ∃ d₀ d w, holding? hs frame = some d₀ ∧ d₀.backend = ({} : Store).put "f" frame ∧
    replay (lz4Setup 1) [.submit (.read "f" heap false true), .act (.push 0), .act (.pop .io)] d₀ =
      some d ∧ d.tasks.get .io = .busy w ∧ d.backend = ({} : Store).put "f" frame ∧
    d.heaps = hs ∧ w.op = .read ∧ w.buffer = .none ∧ w.id = 0 ∧
    PathField.ofString? "f" = .ok w.path ∧
    Stage.readTarget (lz4Setup 1) w frame.length = (Heaps.systemHeap, frame.length) ∧
    ∀ s hs b n, ∃ d' u, replay (lz4Setup 1) [.act (.hand .io), .act (.pop .compression)]
        (({ d with backend := s, heaps := hs } : Dispatcher Store Unit).conclude .io
          { w with buffer := .owned b, size := n } (.ok ())) = some d' ∧
      d'.tasks.get .compression = .busy u ∧ d'.heaps = hs ∧
      d'.tickets[0]? = some { op := .read } ∧ u.id = 0 ∧ u.op = .read ∧ u.buffer = .owned b ∧
      u.heap = heap ∧ u.extra = 0 :=
  ⟨_, _, _, rfl, rfl, rfl, rfl, rfl, rfl, rfl, rfl, rfl, rfl, rfl,
    fun _ _ _ _ => ⟨_, _, rfl, rfl, rfl, rfl, rfl, rfl, rfl, rfl, rfl⟩⟩

/-- The turn goes well if the frame fits into the memory: the frame is before the compression
    worker, whose turn it is. -/
theorem exists_read_done {hs : Heaps} (hserves : hs.Serves) (hledger : hs.Ledger 0) (heap : HeapId)
    (frame : List UInt8)
    (hv : (Buffer.layoutOf frame.length defaultAlignment).isValid = true)
    (hl : Source.servable (Buffer.layoutOf frame.length defaultAlignment) = true) :
    ∃ d₀ d₁ w d₂ u, Fresh (lz4Setup 1) d₀ ∧ d₀.backend = ({} : Store).put "f" frame ∧
      Recorded (lz4Setup 1) d₀ [.read "f" heap false true] [⟨d₁, .io, w⟩] d₂ ∧ w.id = 0 ∧
      (⟨d₁, .io, w⟩ : Turn Store Unit).result (lz4Setup 1) = .ok () ∧
      slowView.contents d₁.backend (slowView.file "f") = some frame ∧
      d₂.tasks.get .compression = .busy u ∧ u.id = 0 ∧ u.op = .read ∧ u.buffer.bytes = frame ∧
      u.heap = heap ∧ u.extra = 0 ∧ d₂.heaps.Serves ∧
      d₂.tickets[0]? = some { op := .read } := by
  obtain ⟨d₀, d₁, w, h₀, hb₀, hr₁, hw, hb, hheaps, hop, hbuffer, hid, hpath, htarget, hnext⟩ :=
    exists_read_begun hs heap frame
  have hslow : Store.Slow (({} : Store).put "f" frame) := slow_put slow_initial _ _
  have hname := PathField.text_of_ofString? hpath
  -- the I/O turn, which gets its buffer
  have hread := Stage.processIo_read_spec (p := lz4Setup 1) d₁.heaps Backend.Scripted.honest
    (show slowView.sound d₁.backend by rw [hb]; exact hslow) hop
  have hfile : slowView.contents d₁.backend (slowView.file "f") = some frame := by
    rw [hb]
    rfl
  have hok : (Stage.processIo (lz4Setup 1) d₁.heaps d₁.backend w).result = .ok () := by
    rcases hread.served (Backend.Scripted.reliable _) ⟨"f", by rw [hname]; rfl⟩ frame
      (by rw [show Stage.fileOf slowView w = "f" from hname]; exact hfile) with hok | ⟨e, he, -⟩
    · exact hok
    · obtain ⟨b, hs', hnew, -⟩ := hserves.newBuffer hv hl
      unfold Stage.Refused at he
      rw [hheaps, htarget, show (lz4Setup 1).config.bufferAlignment = defaultAlignment from rfl, hnew] at he
      cases he
  obtain ⟨data, b, hdata, hwork, hdel⟩ := hread.full hok
  rw [show Stage.fileOf slowView w = slowView.file "f" from hname, hfile] at hdata
  obtain rfl := Option.some.inj hdata
  -- the memory still serves after it
  have hledger : d₁.heaps.Ledger (w.buffer.leases + 0) := by
    rw [hbuffer, hheaps]
    exact hledger
  obtain ⟨_, htrades⟩ := Stage.traded_processIo (lz4Setup 1) d₁.backend hledger
  have hserves := htrades.serves (hheaps.symm ▸ hserves)
  have hstep : d₁.step (lz4Setup 1) (.process .io) = _ := process_busy hw
  unfold processing at hstep
  dsimp only at hstep
  rw [hok, hwork] at hstep
  obtain ⟨d₂, u, hr₂, hu, hheaps₂, ht, huid, huop, hubuf, huheap, hextra⟩ := hnext
    (Stage.processIo (lz4Setup 1) d₁.heaps d₁.backend w).state
    (Stage.processIo (lz4Setup 1) d₁.heaps d₁.backend w).heaps b frame.length
  have hbegun := (recorded_of_quiet (by simp) hr₁).turn hw hstep
  refine ⟨d₀, d₁, w, d₂, u, fresh_of_start h₀, hb₀, hbegun.trans (recorded_of_quiet (by simp) hr₂),
    hid, hok, hfile, hu, huid, huop, ?_, huheap, hextra, ?_, ht⟩
  · rw [hubuf]
    exact hdel.bytes
  · rw [hheaps₂]
    exact hserves

/-- The frame of one byte is read, handed on and unframed well. -/
theorem exists_read_unframed : ∃ d₀ d₁ w d₂ u d t, Fresh (lz4Setup 1) d₀ ∧
    d₀.backend = ({} : Store).put "f" tinyFrame ∧
    Recorded (lz4Setup 1) d₀ [.read "f" 0 false true] [⟨d₁, .io, w⟩, ⟨d₂, .compression, u⟩] d ∧
    w.id = 0 ∧ slowView.contents d₁.backend (slowView.file "f") = some tinyFrame ∧
    (∀ x ∈ [⟨d₁, .io, w⟩, ⟨d₂, .compression, u⟩],
      (x : Turn Store Unit).result (lz4Setup 1) = .ok ()) ∧
    d.tickets[0]? = some t ∧ t.isDone = true ∧ t.result = .ok () := by
  obtain ⟨d₀, d₁, w, d₂, u, hfresh, hb₀, hbegun, hid, hok₁, hfile, hu, huid, huop, hbytes, huheap,
    hextra, hserves, ht⟩ :=
    exists_read_done Heaps.serves_initial Heaps.ledger_initial Heaps.systemHeap tinyFrame rfl rfl
  -- the turn of the compression worker, which gets a buffer
  have hunpack := Stage.processCompression_read_spec (p := lz4Setup 1) d₂.heaps Codec.pure_lz4 ()
    d₂.codec huop
  rw [hbytes] at hunpack
  have hok₂ : (Stage.processCompression (lz4Setup 1) d₂.heaps d₂.codec u).result = .ok () := by
    rcases hunpack.served with ⟨e, he⟩ | hok
    · obtain ⟨size, hs', hsize, hnew⟩ := Stage.refused_of_decompress huop he
      rw [hbytes] at hsize
      obtain rfl := Except.ok.inj (isFrame_tinyFrame.checkHeader.symm.trans (Frame.examine_lz4_iff.mp hsize))
      obtain ⟨b', hs'', hnew', -⟩ := hserves.newBuffer (n := 1) rfl rfl
      rw [huheap, hextra] at hnew
      rw [show Size.saturatingAdd ([65] : List UInt8).length 0 = 1 from rfl,
        show (lz4Setup 1).config.bufferAlignment = defaultAlignment from rfl, hnew'] at hnew
      cases hnew
    · rw [hok, show (lz4Setup 1).codec = Codec.lz4 from rfl, isFrame_tinyFrame.unpack]
      rfl
  obtain ⟨_, _, -, hwork₂, -⟩ := hunpack.full hok₂
  have hstep₂ : d₂.step (lz4Setup 1) (.process .compression) = _ := process_busy hu
  have hcalm : ∀ x ∈ [⟨d₁, .io, w⟩, ⟨d₂, .compression, u⟩],
      (x : Turn Store Unit).result (lz4Setup 1) = .ok () := by
    intro x hx
    rcases List.mem_cons.mp hx with rfl | hx
    · exact hok₁
    · obtain rfl := List.mem_singleton.mp hx
      exact hok₂
  have hdone : ∃ t, (conclude (processing (lz4Setup 1) d₂ .compression u).1 .compression
      (Stage.processCompression (lz4Setup 1) d₂.heaps d₂.codec u).work
      (Stage.processCompression (lz4Setup 1) d₂.heaps d₂.codec u).result).tickets[0]? = some t ∧
      t.isDone = true ∧ t.result = .ok () := by
    rw [hok₂, hwork₂, tickets_conclude (by unfold handsOn; rw [huop]; rfl)
      (by rw [← ht, ← huid]; rfl) rfl, huid]
    exact ⟨_, List.getElem?_set_self (List.getElem?_eq_some_iff.mp ht).1, rfl, rfl⟩
  obtain ⟨t, ht', hd, hok⟩ := hdone
  exact ⟨d₀, d₁, w, d₂, u, _, t, hfresh, hb₀, hbegun.turn hu hstep₂, hid, hfile, hcalm, ht', hd, hok⟩

/-- The frame is read, handed on and unframed to its one byte. -/
theorem unframes_of_one_byte : ∃ d₀ d ts, Fresh (lz4Setup 1) d₀ ∧
    Recorded (lz4Setup 1) d₀ [.read "f" 0 false true] ts d ∧
    EndsWith (lz4Setup 1) d 0 (Unframed tinyFrame false) ∧
    ∃ t, d.tickets[0]? = some t ∧ t.isDone = true ∧ Gives [65] false t := by
  obtain ⟨d₀, d₁, w, d₂, u, d, t, hfresh, hb₀, hrec, hid, hfile, hcalm, ht, hd, -⟩ :=
    exists_read_unframed
  have hslow : Store.Slow (({} : Store).put "f" tinyFrame) := slow_put slow_initial _ _
  have hends : EndsWith _ _ 0 _ := Recorded.unframes hfresh rfl Backend.Scripted.honest
    (by rw [hb₀]; exact hslow) hrec rfl
    (mem_ioTurns.mpr ⟨List.mem_cons_self, rfl⟩) hid (hcalm _ List.mem_cons_self) hfile
    (fun t ht => by unfold Turn.crashed; rw [hcalm t ht]; rfl)
    (fun t ht _ e he => by rw [hcalm t ht] at he; cases he)
  exact ⟨d₀, d, _, hfresh, hrec, hends, t, ht, hd,
    ((hends.shows t ht hd).given _ isFrame_tinyFrame).1⟩

end FilePipeline.Dispatcher
