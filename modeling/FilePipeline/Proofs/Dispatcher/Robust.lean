import FilePipeline.Proofs.Dispatcher.Rest
import FilePipeline.Proofs.Dispatcher.Unframing
import FilePipeline.Proofs.Stage.Crashes

/-! # Where workers crash

Over a tame backend, with payloads of modest length, a worker crashes in no turn but those in which
the codec does, when the compression worker is to unframe what a read has found in its file. After
every other turn the worker goes on to the next item, and if the turn has failed then the ticket
says why (`Recorded.survives`).

A codec that never crashes itself has no such turns. The LZ4 codec has: it goes down on a block with
a length that does not fit into 32 bits, and takes the worker with it
(`crashes_on_overlong_frame`). -/

namespace FilePipeline.Dispatcher

open Backend (Tame Calm)

variable {σ η κ : Type} {p : Setup σ η κ} {fine : σ → Prop} {frail : List UInt8 → Prop}
  {d d' d₀ d₁ : Dispatcher σ κ} {rs : List Submission} {ts : List (Turn σ κ)} {s : Stage}
  {w w' : Work} {id : WorkId}

/-! ### What workers are given to write -/

/-- The lengths of all payloads are modest. -/
def ModestPayloads (rs : List Submission) : Prop :=
  ∀ path data compressed, .write path data compressed ∈ rs → Modest data.length

theorem ModestPayloads.of_prefix {rs' : List Submission} (h : ModestPayloads rs) (hp : rs' <+: rs) :
    ModestPayloads rs' := fun path data compressed hr => h path data compressed (hp.mem hr)

/-- What is to be written is of a modest length before it is framed, and no longer than what a
    machine can hold then. -/
def Manageable (s : Stage) (w : Work) : Prop :=
  w.op = .write → match s with
    | .io => w.buffer.bytes.length ≤ Size.max
    | .compression => Modest w.buffer.bytes.length

theorem account_manageable : Account p d₀ fun rs _ s w => ModestPayloads rs → Manageable s w where
  asked := by
    intro rs ts d r path _ _ hn hop
    cases r with
    | read => cases hop
    | write path data compressed =>
      have hlen : Modest data.length := hn path data compressed (by simp)
      cases compressed with
      | false => exact hlen.le_max
      | true => exact hlen
  ready := by
    intro rs ts d s w w' d₁ _ _ _ hp hh _ hop
    cases s with
    | io =>
      unfold handsOn at hh
      rw [hop] at hh
      cases hh
    | compression =>
      have hres : (Stage.processCompression p d.heaps d.codec w).result = .ok () :=
        congrArg (fun x => x.2.2) hp
      have hwork : (Stage.processCompression p d.heaps d.codec w).work = w' :=
        congrArg (fun x => x.2.1) hp
      rw [← hwork]
      exact Stage.length_of_compress ((sameAs_of_processing hp).op.symm.trans hop) hres
  later := fun r hP hn => hP (hn.of_prefix (List.prefix_append _ _))
  others := fun _ _ hP => hP

theorem Recorded.manageable (h₀ : Unused p d₀) (h : Recorded p d₀ rs ts d)
    (hn : ModestPayloads rs) {t : Turn σ κ} (ht : t ∈ ts) : Manageable t.stage t.work := by
  obtain ⟨ts₁, ts₂, rfl⟩ := List.append_of_mem ht
  obtain ⟨rs₁, hrs, hP⟩ := account_manageable.at_turn h₀ h rfl
  exact hP (hn.of_prefix hrs)

/-! ### Tame backends stay so -/

theorem fine_effects (hb : p.backend.Tame fine) (ht : ∀ t ∈ ts, Manageable t.stage t.work) {b : σ}
    (hf : fine b) : fine (effects p ts b) := by
  refine effects_of_processIo (fun t hmem hio s hs => ?_) hf
  have hmax := ht t hmem
  rw [hio] at hmax
  exact (Stage.calm_processIo hb hs hmax).fine

theorem Recorded.fine_at (h₀ : Unused p d₀) (hb : p.backend.Tame fine) (hf : fine d₀.backend)
    (h : Recorded p d₀ rs ts d) (hn : ModestPayloads rs) {t : Turn σ κ} (ht : t ∈ ts) :
    fine t.before.backend := by
  have hall := fun u hu => h.manageable h₀ hn (t := u) hu
  obtain ⟨ts₁, ts₂, rfl⟩ := List.append_of_mem ht
  rw [h.backend_at rfl]
  exact fine_effects hb (fun u hu => hall u (List.mem_append_left _ hu)) hf

/-! ### What becomes of a turn -/

/-- The ticket with a number shows how its work has ended. -/
def Reports (d : Dispatcher σ κ) (id : WorkId) (r : Except WorkError Unit) : Prop :=
  ∃ t, d.tickets[id]? = some t ∧ t.isDone = true ∧ t.result = r

theorem Run.reports {r : Except WorkError Unit} (h : Run p d rs d') (hr : d.Reports id r) :
    d'.Reports id r := by
  obtain ⟨t, ht, hd, hr⟩ := hr
  obtain ⟨t', ht', hk⟩ := h.kept ht hd
  exact ⟨t', ht', hk.isDone hd, hk.result.trans hr⟩

theorem InBalance.reports (hb : d.InBalance) (hw : d.tasks.get s = .busy w)
    {r : Attempt WorkError Unit} (hp : d.processing p s w = (d₁, w', r))
    (e : Except WorkError Unit) (t : Task) : ((d₁.settle w' e).setTask s t).Reports w.id e := by
  have hsame := sameAs_of_processing hp
  have hmem : w ∈ d.held := mem_held (mem_worksOf_worker hw List.mem_cons_self)
  obtain ⟨k, hk, hpending, -⟩ := Balanced.pending_of_mem hb hmem
  have hc := hb.consistent k (List.mem_of_getElem? hk)
  rw [← hsame.id, ← (untouched_of_processing hp).tickets] at hk
  rw [settle_of_pending hk hpending, ← hsame.id]
  refine ⟨_, List.getElem?_set_self (List.getElem?_eq_some_iff.mp hk).1, ?_, ?_⟩
  · rw [hc.publish_of_pending hpending]
    rfl
  · exact congrArg Outcome.result (hc.outcome_publish hpending (w'.outcome e))

/-- The worker of a stage, once it has handed on what it may have in hand, takes what comes next in
    its queue. -/
def GoesOn (p : Setup σ η κ) (s : Stage) (d : Dispatcher σ κ) : Prop :=
  ∃ d', (d' = d ∨ d.step p (.hand s) = some d') ∧ d'.tasks.get s = .idle ∧
    ((d'.queues.get s).entries ≠ [] → ∃ d'', d'.step p (.pop s) = some d'')

theorem step_pop (ht : d.tasks.get s = .idle) (he : (d.queues.get s).entries ≠ []) :
    ∃ d', d.step p (.pop s) = some d' := by
  obtain ⟨d', h⟩ := exists_pop_of_entries (p := p) ht he
  exact ⟨d', step_of_transition h⟩

theorem goesOn_of_idle (ht : d.tasks.get s = .idle) : GoesOn p s d :=
  ⟨d, Or.inl rfl, ht, step_pop ht⟩

theorem goesOn_of_handing (ht : d.tasks.get s = .handing w) : GoesOn p s d := by
  have hidle : ∀ d₁ : Dispatcher σ κ, (d₁.setTask s .idle).tasks.get s = .idle := fun d₁ => by
    rw [get_setTask, if_pos rfl]
  cases hq : (d.queues.get s.peer).forward? (.work w) with
  | some q => exact ⟨_, Or.inr (step_of_transition (.handed ht hq)), hidle _, step_pop (hidle _)⟩
  | none => exact ⟨_, Or.inr (step_of_transition (.refused ht hq)), hidle _, step_pop (hidle _)⟩

theorem goesOn_of_conclude {r : Attempt WorkError Unit} (hr : r.crashed = false) :
    GoesOn p s (d.conclude s w r) := by
  rcases d.conclude_cases s w r with ⟨-, -, he⟩ | ⟨-, e, he⟩
  · rw [he]
    exact goesOn_of_handing (w := w) (by rw [get_setTask, if_pos rfl])
  · rw [he, hr]
    exact goesOn_of_idle (by rw [get_setTask, if_pos rfl]; rfl)

/-! ### Runs -/

/-- What is so of the turns `ts` of a run to `d` whose workers crash only where the codec does. -/
structure Survives (p : Setup σ η κ) (frail : List UInt8 → Prop) (ts : List (Turn σ κ))
    (d : Dispatcher σ κ) : Prop where
  /-- A worker crashes exactly if it is to unframe what a read has found, and the codec crashes, -/
  crashes : ∀ t ∈ ts, t.crashed p = true ↔ t.stage = .compression ∧ t.work.op = .read ∧
    Stage.Chokes p t.before.heaps t.before.codec t.work
  /-- for which that has to be a certain block. -/
  frail : ∀ t ∈ ts, t.crashed p = true → frail (t.work.buffer.bytes.drop Frame.headerSize)
  /-- A buffer for a file has room for as many bytes as there are in the file. -/
  room : ∀ t ∈ ts, ∀ size b hs, t.before.heaps.newBuffer (Stage.readTarget p t.work size).1
    (Stage.readTarget p t.work size).2 p.config.bufferAlignment = (.ok b, hs) → size ≤ b.capacity
  /-- What has failed is reported in the end, with what it has failed with. -/
  failed : ∀ t ∈ ts, ∀ e, t.result p = Attempt.fail e → d.Reports t.work.id (.error e)
  /-- Each worker that has not crashed goes on. -/
  served : ∀ t ∈ ts, t.crashed p = false →
    ∃ d', t.before.step p (.process t.stage) = some d' ∧ GoesOn p t.stage d'
  /-- One that has crashed leaves, and its work has been abandoned. -/
  lost : ∀ t ∈ ts, t.crashed p = true → d.Reports t.work.id (.error .abandoned) ∧
    ∃ d', t.before.step p (.process t.stage) = some d' ∧ d'.tasks.get t.stage = .leaving true

/-- How a turn has ended is told by the ticket, whatever happens later. -/
theorem Recorded.reports (h₀ : Unused p d₀) (h : Recorded p d₀ rs ts d) {t : Turn σ κ} (ht : t ∈ ts)
    {r : Attempt WorkError Unit} (hr : t.result p = r) {e : WorkError}
    (he : r = Attempt.fail e ∨ r.crashed = true ∧ e = .abandoned) :
    d.Reports t.work.id (.error e) := by
  obtain ⟨ts₁, ts₂, rfl⟩ := List.append_of_mem ht
  obtain ⟨rs₁, rs₂, d', rfl, hbefore, hw, hs, hafter⟩ := h.split rfl
  obtain ⟨d₁, w', r', hp, rfl⟩ := turn_cases hw hs
  obtain rfl : r' = r := (Turn.result_eq hp).symm.trans hr
  have hb := hbefore.run.balanced h₀.inBalance
  refine hafter.run.reports ?_
  rcases he with rfl | ⟨hc, rfl⟩
  · exact hb.reports hw hp _ _
  · rcases r' with (e | c) | ⟨⟩
    · cases hc
    · exact hb.reports hw hp _ _
    · cases hc

theorem Recorded.goesOn (h : Recorded p d₀ rs ts d) {t : Turn σ κ} (ht : t ∈ ts)
    (hcalm : t.crashed p = false) :
    ∃ d', t.before.step p (.process t.stage) = some d' ∧ GoesOn p t.stage d' := by
  obtain ⟨ts₁, ts₂, rfl⟩ := List.append_of_mem ht
  obtain ⟨-, -, d', -, -, hw, hs, -⟩ := h.split rfl
  obtain ⟨d₁, w', r, hp, rfl⟩ := turn_cases hw hs
  refine ⟨_, hs, goesOn_of_conclude ?_⟩
  rw [← Turn.result_eq hp]
  exact hcalm

theorem Recorded.leaving (h : Recorded p d₀ rs ts d) {t : Turn σ κ} (ht : t ∈ ts)
    (hcrashed : t.crashed p = true) :
    ∃ d', t.before.step p (.process t.stage) = some d' ∧ d'.tasks.get t.stage = .leaving true := by
  obtain ⟨ts₁, ts₂, rfl⟩ := List.append_of_mem ht
  obtain ⟨-, -, d', -, -, hw, hs, -⟩ := h.split rfl
  obtain ⟨d₁, w', r, hp, rfl⟩ := turn_cases hw hs
  refine ⟨_, hs, ?_⟩
  unfold Turn.crashed at hcrashed
  rw [Turn.result_eq hp] at hcrashed
  rcases d₁.conclude_cases t.stage w' r with ⟨hr, -⟩ | ⟨-, e, he⟩
  · rw [hr] at hcrashed
    cases hcrashed
  · rw [he, hcrashed, get_setTask, if_pos rfl, if_pos rfl]

theorem Recorded.crashes_iff (h₀ : Unused p d₀) (hb : p.backend.Tame fine) (hf : fine d₀.backend)
    (hc : p.codec.Tame frail) (h : Recorded p d₀ rs ts d) (hn : ModestPayloads rs) {t : Turn σ κ}
    (ht : t ∈ ts) : t.crashed p = true ↔ t.stage = .compression ∧ t.work.op = .read ∧
      Stage.Chokes p t.before.heaps t.before.codec t.work := by
  have hmanage := h.manageable h₀ hn ht
  have hfine := h.fine_at h₀ hb hf hn ht
  obtain ⟨d₁, s, w⟩ := t
  cases s with
  | io =>
    have hcalm : (⟨d₁, .io, w⟩ : Turn σ κ).crashed p = false :=
      (Stage.calm_processIo hb hfine hmanage).calm
    rw [hcalm]
    exact ⟨(fun h => by cases h), fun h => by cases h.1⟩
  | compression =>
    cases hop : w.op with
    | read =>
      exact (Stage.crashed_decompress_iff hc hop).trans
        ⟨fun h => ⟨rfl, rfl, h⟩, fun h => h.2.2⟩
    | write =>
      have hcalm : (⟨d₁, .compression, w⟩ : Turn σ κ).crashed p = false :=
        Stage.crashed_compress hc hop (hmanage hop)
      rw [hcalm]
      exact ⟨(fun h => by cases h), fun h => by cases h.2.1⟩

/-- Whatever the files, the paths and the flags are, whatever fails and whatever the heaps refuse:
    in a run with modest payloads over a tame backend, with the LZ4 codec or one that never crashes,
    workers crash only where the codec does. -/
theorem Recorded.survives (h₀ : Fresh p d₀) (hb : p.backend.Tame fine) (hf : fine d₀.backend)
    (hc : p.codec.Admitted frail) (hn : ModestPayloads rs) (h : Recorded p d₀ rs ts d) :
    Survives p frail ts d := by
  have h₀ := h₀.unused
  have hcrash := fun t ht => h.crashes_iff h₀ hb hf hc.tame hn (t := t) ht
  refine ⟨hcrash, fun t ht hcrashed => ?_, fun t ht size b hs hnew => ?_, fun t ht e he => ?_,
    fun t ht hcalm => h.goesOn ht hcalm, fun t ht hcrashed => ⟨?_, h.leaving ht hcrashed⟩⟩
  · obtain ⟨-, -, hchokes⟩ := (hcrash t ht).mp hcrashed
    exact hchokes.frail_block hc.tame
  · exact (Stage.room_of_readTarget hnew).1
  · exact h.reports h₀ ht he (Or.inl rfl)
  · exact h.reports h₀ ht rfl (Or.inr ⟨hcrashed, rfl⟩)

/-! ### Frames that are none -/

open Backend.Scripted (Store slow_initial slow_put)

/-- A run in which a compressed read of a file with some bytes has had both of its turns, if there
    is memory for them. -/
theorem exists_read_ended (frame : List UInt8)
    (hv : (Buffer.layoutOf frame.length defaultAlignment).isValid = true)
    (hl : Source.servable (Buffer.layoutOf frame.length defaultAlignment) = true) :
    ∃ d₀ d₁ v d₂ w d, Fresh (lz4Setup 1) d₀ ∧ Store.Slow d₀.backend ∧
      Recorded (lz4Setup 1) d₀ [.read "f" 0 false true] [⟨d₁, .io, v⟩, ⟨d₂, .compression, w⟩] d ∧
      d₂.step (lz4Setup 1) (.process .compression) = some d ∧
      w.id = 0 ∧ w.op = .read ∧ w.buffer.bytes = frame ∧ w.heap = Heaps.systemHeap ∧
      w.extra = 0 ∧ d₂.heaps.Serves := by
  obtain ⟨d₀, d₁, v, d₂, w, hfresh, hb₀, hbegun, -, -, -, hw, hid, hop, hbytes, hheap, hextra,
    hserves, -⟩ :=
    exists_read_done Heaps.serves_initial Heaps.ledger_initial Heaps.systemHeap frame hv hl
  have hstep : d₂.step (lz4Setup 1) (.process .compression) = some _ := process_busy hw
  refine ⟨d₀, d₁, v, d₂, w, _, hfresh, ?_, hbegun.turn hw hstep, hstep, hid, hop, hbytes, hheap,
    hextra, hserves⟩
  rw [hb₀]
  exact slow_put slow_initial _ _

theorem modestPayloads_read (path : String) (heap : HeapId) (nullTerminate compressed : Bool) :
    ModestPayloads [.read path heap nullTerminate compressed] := by
  intro path' data' compressed' hr
  cases List.mem_singleton.mp hr

/-- A file that is too short for a header: the read fails, and the worker goes on. -/
theorem survives_short_file : ∃ d₀ d ts t, Fresh (lz4Setup 1) d₀ ∧
    Recorded (lz4Setup 1) d₀ [.read "f" 0 false true] ts d ∧
    Survives (lz4Setup 1) Lz4.LongRun ts d ∧ t ∈ ts ∧
    t.result (lz4Setup 1) = Attempt.fail (.codec (.truncated 1)) ∧
    d.Reports 0 (.error (.codec (.truncated 1))) := by
  obtain ⟨d₀, d₁, v, d₂, w, d, hfresh, hf, hrec, -, hid, hop, hbytes, -⟩ :=
    exists_read_ended [65] rfl rfl
  have hfailed : (⟨d₂, .compression, w⟩ : Turn Store Unit).result (lz4Setup 1) =
      Attempt.fail (.codec (.truncated 1)) := by
    show (Stage.processCompression (lz4Setup 1) d₂.heaps d₂.codec w).result = _
    unfold Stage.processCompression Stage.decompress Stage.unpack
    rw [hop, hbytes]
    rfl
  have hsurvives := Recorded.survives hfresh Backend.Scripted.tame hf .lz4
    (modestPayloads_read _ _ _ _) hrec
  refine ⟨d₀, d, _, _, hfresh, hrec, hsurvives, List.mem_cons_of_mem _ List.mem_cons_self, hfailed,
    ?_⟩
  have hreports := hsurvives.failed _ (List.mem_cons_of_mem _ List.mem_cons_self) _ hfailed
  rwa [show (⟨d₂, .compression, w⟩ : Turn Store Unit).work.id = 0 from hid] at hreports

/-- A frame that announces 16 bytes, and whose block begins with a run of literals of a length that
    does not fit. -/
def overlongFrame : List UInt8 := [16, 0, 0, 0, 240] ++ (List.replicate Lz4.longestRun 255 ++ [9])

theorem length_overlongFrame : overlongFrame.length = 16843015 := by
  unfold overlongFrame
  rw [List.length_append, List.length_append, List.length_replicate]
  rfl

theorem checkHeader_overlongFrame : Frame.checkHeader Codec.lz4 () overlongFrame = .ok 16 := by
  refine Frame.checkHeader_of_plausible ?_ rfl ?_
  · rw [length_overlongFrame]
    decide
  · rw [length_overlongFrame]
    decide

theorem crashed_overlongFrame (dst : Span) :
    (Codec.lz4.decompress () (overlongFrame.drop Frame.headerSize) dst).answer.crashed = true :=
  (Codec.crashed_lz4Decompress _ dst).trans
    (Lz4.crashed_decode (show (240 : UInt8).toNat / 16 = 15 from rfl) ⟨9, [], by decide, rfl⟩)

/-- The LZ4 codec takes the compression worker down: the read is abandoned, and nothing is served
    after it. -/
theorem crashes_on_overlong_frame : ∃ d₀ d ts t, Fresh (lz4Setup 1) d₀ ∧
    (lz4Setup 1).backend.Tame Store.Slow ∧ Store.Slow d₀.backend ∧
    ModestPayloads [.read "f" 0 false true] ∧
    Recorded (lz4Setup 1) d₀ [.read "f" 0 false true] ts d ∧ t ∈ ts ∧
    t.crashed (lz4Setup 1) = true ∧ d.Reports 0 (.error .abandoned) ∧
    d.tasks.get .compression = .leaving true := by
  obtain ⟨d₀, d₁, v, d₂, w, d, hfresh, hf, hrec, hstep, hid, hop, hbytes, hheap, hextra, hserves⟩ :=
    exists_read_ended overlongFrame (by rw [length_overlongFrame]; decide)
      (by rw [length_overlongFrame]; decide)
  obtain ⟨b, hs', hnew, -⟩ := hserves.newBuffer (n := 16) rfl rfl
  have hcrashed : (⟨d₂, .compression, w⟩ : Turn Store Unit).crashed (lz4Setup 1) = true := by
    refine (Stage.crashed_decompress_iff Codec.tame_lz4 hop).mpr ⟨16, b, hs', ?_, ?_, ?_⟩
    · rw [hbytes]
      exact Frame.examine_lz4_iff.mpr checkHeader_overlongFrame
    · rw [hheap, hextra]
      exact hnew
    · rw [hbytes]
      exact crashed_overlongFrame _
  have hmem : (⟨d₂, .compression, w⟩ : Turn Store Unit) ∈
      [⟨d₁, .io, v⟩, ⟨d₂, .compression, w⟩] := List.mem_cons_of_mem _ List.mem_cons_self
  have hreports := hrec.reports hfresh.unused hmem rfl (Or.inr ⟨hcrashed, rfl⟩)
  obtain ⟨d', hstep', hgone⟩ := hrec.leaving hmem hcrashed
  obtain rfl : d = d' := Option.some.inj (hstep.symm.trans hstep')
  rw [show (⟨d₂, .compression, w⟩ : Turn Store Unit).work.id = 0 from hid] at hreports
  exact ⟨d₀, d, _, _, hfresh, Backend.Scripted.tame, hf, modestPayloads_read _ _ _ _, hrec, hmem,
    hcrashed, hreports, hgone⟩

end FilePipeline.Dispatcher
