import FilePipeline.Proofs.Backend.Loops
import FilePipeline.Proofs.Dispatcher.Completion
import FilePipeline.Proofs.Dispatcher.Placement
import FilePipeline.Proofs.Heap.Serving
import FilePipeline.Proofs.Stage.Buffers

/-! # What failed work hands over

A handle of work that failed never shows a buffer. But the buffer can be taken from it where the work
still held one when it ended: a compressed read that was abandoned between the two stages holds the
raw frame, and a read whose file was read holds its contents even if the backend crashed when it
closed the file. `LeftOver` says that a read is in such a place, and `Run.hands_over` that these are
exactly the failed reads that hand a buffer over, once each.

For this the buffer of a read has to be known wherever it is: a read has none up to the end of its
I/O stage, and owns one from there to the end of its second stage (`carries`). -/

namespace FilePipeline.Dispatcher

variable {σ η κ : Type} {p : Setup σ η κ} {d d' d₀ : Dispatcher σ κ} {rs : List Submission}

/-! ### The buffer of a read -/

/-- A read at a stage: without a buffer at the first, with one of its own at the second. -/
def CarriesAt (s : Stage) (w : Work) : Prop :=
  w.op = .read → match s with
    | .io => w.buffer = .none
    | .compression => ∃ b, w.buffer = .owned b

/-- Where a read has a buffer. -/
def carries : Placement where
  waiting s w := w.op = .read → s = .io ∧ w.buffer = .none
  queued s _ w := CarriesAt s w
  busy s w := CarriesAt s w
  handing s w := w.op = .read → s = .io ∧ ∃ b, w.buffer = .owned b

theorem carries_stable (p : Setup σ η κ) : carries.Stable p where
  submit id r path := by
    cases r with
    | read => exact fun _ => ⟨rfl, rfl⟩
    | write => exact fun h => by cases h
  push s w h := by
    intro hop
    obtain ⟨rfl, hb⟩ := h hop
    exact hb
  pop s c w h := h
  ready d d' s w w' hb hp hh := by
    intro hop
    have hw := sameAs_of_processing hp
    cases s with
    | io =>
      refine ⟨rfl, ?_⟩
      have hr : (Stage.processIo p d.heaps d.backend w).result = .ok () :=
        congrArg (fun x => x.2.2) hp
      have hw' : (Stage.processIo p d.heaps d.backend w).work = w' :=
        congrArg (fun x => x.2.1) hp
      rcases Stage.processIo_read_cases p d.heaps d.backend
        (hw.op.symm.trans hop) with ⟨-, size, n, hl⟩ | ⟨-, ⟨c, hc⟩, -⟩ | ⟨-, ⟨f, hf⟩, -⟩
      · rw [hw'] at hl
        exact hl.buffer
      · rw [hr] at hc
        cases hc
      · rw [hr] at hf
        cases hf
    | compression =>
      have hh' : (w'.op == .write) = true := hh
      rw [hop] at hh'
      cases hh'
  hand s w h := by
    intro hop
    obtain ⟨rfl, hb⟩ := h hop
    exact hb

/-! ### Left over buffers -/

/-- A read with a number is where it keeps its buffer although it fails in the next step: the I/O
    worker cannot hand it on, it is dropped with the queue of the compression stage, or the backend
    crashes when it closes the file. -/
inductive LeftOver (p : Setup σ η κ) (d : Dispatcher σ κ) (id : WorkId) : Prop
  | refused (w : Work) (hid : w.id = id) (hop : w.op = .read) (hw : d.tasks.io = .handing w)
  | drained (w : Work) (hid : w.id = id) (hop : w.op = .read)
      (hw : w ∈ d.queues.compression.works)
  | crashed (w : Work) (hid : w.id = id) (hop : w.op = .read) (hw : d.tasks.io = .busy w)
      (hc : Stage.ClosingCrashes p d.heaps d.backend w)

theorem LeftOver.cases {id : WorkId} (hb : d.InBalance) (h : LeftOver p d id) {k : Holder}
    {w : Work} (hw : w ∈ d.worksOf k) (hid : w.id = id) :
    (k = .worker .io ∧ w.op = .read ∧ (d.tasks.io = .handing w ∨
        (d.tasks.io = .busy w ∧ Stage.ClosingCrashes p d.heaps d.backend w))) ∨
      (k = .queue .compression ∧ w.op = .read) := by
  cases h with
  | refused v hid' hop hv =>
    obtain ⟨rfl, rfl⟩ := hb.held_unique hw (mem_worksOf_worker (s := .io) hv List.mem_cons_self)
      (hid.trans hid'.symm)
    exact Or.inl ⟨rfl, hop, Or.inl hv⟩
  | drained v hid' hop hv =>
    have hv' : v ∈ d.worksOf (.queue .compression) := hv
    obtain ⟨rfl, rfl⟩ := hb.held_unique hw hv' (hid.trans hid'.symm)
    exact Or.inr ⟨rfl, hop⟩
  | crashed v hid' hop hv hc =>
    obtain ⟨rfl, rfl⟩ := hb.held_unique hw (mem_worksOf_worker (s := .io) hv List.mem_cons_self)
      (hid.trans hid'.symm)
    exact Or.inl ⟨rfl, hop, Or.inr ⟨hv, hc⟩⟩

theorem not_leftOver (hb : d.InBalance) {k : Holder} {w : Work} (hw : w ∈ d.worksOf k)
    (hio : k ≠ .worker .io) (hq : k ≠ .queue .compression) : ¬ LeftOver p d w.id := by
  intro h
  rcases h.cases hb hw rfl with ⟨hk, -⟩ | ⟨hk, -⟩
  · exact hio hk
  · exact hq hk

theorem leftOver_iff_of_handing (hb : d.InBalance) {w : Work} (ht : d.tasks.io = .handing w) :
    LeftOver p d w.id ↔ w.op = .read := by
  refine ⟨fun h => ?_, fun hop => .refused w rfl hop ht⟩
  rcases h.cases hb (mem_worksOf_worker (s := .io) ht List.mem_cons_self) rfl with
    ⟨-, hop, -⟩ | ⟨-, hop⟩ <;> exact hop

theorem leftOver_iff_of_busy (hb : d.InBalance) {w : Work} (ht : d.tasks.io = .busy w) :
    LeftOver p d w.id ↔ w.op = .read ∧ Stage.ClosingCrashes p d.heaps d.backend w := by
  refine ⟨fun h => ?_, fun ⟨hop, hcc⟩ => .crashed w rfl hop ht hcc⟩
  rcases h.cases hb (mem_worksOf_worker (s := .io) ht List.mem_cons_self) rfl with
    ⟨-, hop, hh | ⟨-, hcc⟩⟩ | ⟨hk, -⟩
  · rw [ht] at hh
    cases hh
  · exact ⟨hop, hcc⟩
  · cases hk

theorem leftOver_iff_of_queued (hb : d.InBalance) {w : Work}
    (hw : w ∈ d.queues.compression.works) : LeftOver p d w.id ↔ w.op = .read := by
  have hmem : w ∈ d.worksOf (.queue .compression) := hw
  refine ⟨fun h => ?_, fun hop => .drained w rfl hop hw⟩
  rcases h.cases hb hmem rfl with ⟨-, hop, -⟩ | ⟨-, hop⟩ <;> exact hop

theorem Ends.op (hb : d.InBalance) {w : Work} {r : Except WorkError Unit} (h : Ends p d w r)
    {id : WorkId} {t : Ticket} (hid : w.id = id) (ht : d.tickets[id]? = some t) : t.op = w.op := by
  obtain ⟨k, v, hv, hs⟩ : ∃ k v, v ∈ d.worksOf k ∧ w.SameAs v := by
    cases h with
    | @turnedAway i s w hw =>
      exact ⟨.submitters, w, List.mem_map.mpr ⟨(s, w), List.mem_of_getElem? hw, rfl⟩, .refl w⟩
    | @processed s v w d₁ r hbusy hp =>
      have hs := sameAs_of_processing hp
      exact ⟨.worker s, v, mem_worksOf_worker hbusy List.mem_cons_self, hs⟩
    | @crashed s v w d₁ c hbusy hp =>
      have hs := sameAs_of_processing hp
      exact ⟨.worker s, v, mem_worksOf_worker hbusy List.mem_cons_self, hs⟩
    | @refused s w hh => exact ⟨.worker s, w, mem_worksOf_worker hh List.mem_cons_self, .refl w⟩
    | @drained s w hw => exact ⟨.queue s, w, hw, .refl w⟩
  obtain ⟨u, hu, huo⟩ := hb.op v (mem_held hv)
  rw [← hs.id, hid, ht] at hu
  rw [Option.some.inj hu, huo, hs.op]

theorem buffer_of_compression {v w : Work} {d₁ : Dispatcher σ κ} {f : Fault WorkError}
    (hp : d.processing p .compression v = (d₁, w, .error f)) (hop : w.op = .read) :
    w.buffer = .none := by
  have hsame := sameAs_of_processing hp
  have hr : (Stage.processCompression p d.heaps d.codec v).result = .error f :=
    congrArg (fun x => x.2.2) hp
  have hw : (Stage.processCompression p d.heaps d.codec v).work = w :=
    congrArg (fun x => x.2.1) hp
  rw [← hw]
  rw [Stage.work_of_failed_decompress (hsame.op.symm.trans hop) fun h => by rw [hr] at h; cases h]

/-- A read that does not get through the I/O stage keeps a buffer exactly if the backend crashed when
    it closed the file. -/
theorem buffer_of_io {v w : Work} {d₁ : Dispatcher σ κ} {f : Fault WorkError}
    (hc : carries.Holds d) (ht : d.tasks.io = .busy v)
    (hp : d.processing p .io v = (d₁, w, .error f)) (hop : v.op = .read) :
    (∃ b, w.buffer = .owned b) ↔ Stage.ClosingCrashes p d.heaps d.backend v := by
  have hr : (Stage.processIo p d.heaps d.backend v).result = .error f :=
    congrArg (fun x => x.2.2) hp
  have hw : (Stage.processIo p d.heaps d.backend v).work = w :=
    congrArg (fun x => x.2.1) hp
  have hnone : v.buffer = .none := by
    have htask := hc.task .io
    rw [show d.tasks.get .io = .busy v from ht] at htask
    exact htask hop
  rcases Stage.processIo_read_cases p d.heaps d.backend hop with
    ⟨hok, -⟩ | ⟨hcc, -, size, n, hl⟩ | ⟨hcc, -, hkeep⟩
  · rw [hr] at hok
    cases hok
  · rw [hw] at hl
    exact ⟨fun _ => hcc, fun _ => hl.buffer⟩
  · refine iff_of_false ?_ hcc
    rintro ⟨b, hb⟩
    rw [hw] at hkeep
    rw [hkeep, hnone] at hb
    cases hb

/-- Work that fails in a stage is a read that holds a buffer exactly if it was left over. -/
theorem leftOver_iff_of_fault (hb : d.InBalance) (hc : carries.Holds d) {s : Stage} {v w : Work}
    {d₁ : Dispatcher σ κ} {f : Fault WorkError} (ht : d.tasks.get s = .busy v)
    (hp : d.processing p s v = (d₁, w, .error f)) :
    (w.op = .read ∧ ∃ b, w.buffer = .owned b) ↔ LeftOver p d w.id := by
  have hsame := sameAs_of_processing hp
  rw [hsame.id, hsame.op]
  cases s with
  | io =>
    rw [leftOver_iff_of_busy hb ht]
    exact and_congr_right fun hop => buffer_of_io hc ht hp hop
  | compression =>
    refine iff_of_false ?_ (not_leftOver hb (mem_worksOf_worker ht List.mem_cons_self)
      (by decide) (by decide))
    rintro ⟨hop, b, hbuf⟩
    rw [buffer_of_compression hp (hsame.op.trans hop)] at hbuf
    cases hbuf

/-- Work that ends with an error is a read that holds a buffer exactly if it was left over. -/
theorem Ends.leftOver_iff (hb : d.InBalance) (hc : carries.Holds d) {w : Work} {e : WorkError}
    (h : Ends p d w (.error e)) :
    (w.op = .read ∧ ∃ b, w.buffer = .owned b) ↔ LeftOver p d w.id := by
  cases h with
  | @turnedAway i s w hw =>
    have hmem : w ∈ d.worksOf .submitters :=
      List.mem_map.mpr ⟨(s, w), List.mem_of_getElem? hw, rfl⟩
    refine iff_of_false ?_ (not_leftOver hb hmem (by decide) (by decide))
    rintro ⟨hop, b, hbuf⟩
    have hnone := (hc.waiting _ (List.mem_of_getElem? hw) hop).2
    rw [hnone] at hbuf
    cases hbuf
  | processed ht hp => exact leftOver_iff_of_fault hb hc ht hp
  | crashed ht hp => exact leftOver_iff_of_fault hb hc ht hp
  | @refused s w ht =>
    have hcar := hc.task s
    rw [ht] at hcar
    cases s with
    | io =>
      rw [leftOver_iff_of_handing hb ht]
      exact and_iff_left_of_imp fun hop => (hcar hop).2
    | compression =>
      refine iff_of_false ?_ (not_leftOver hb (mem_worksOf_worker ht List.mem_cons_self)
        (by decide) (by decide))
      rintro ⟨hop, -⟩
      cases (hcar hop).1
  | @drained s w hw =>
    obtain ⟨en, hen, hitem⟩ := List.mem_map.mp (Item.mem_works.mp hw)
    have hcar := hc.queued s en hen w hitem
    cases s with
    | io =>
      have hmem : w ∈ d.worksOf (.queue .io) := hw
      refine iff_of_false ?_ (not_leftOver hb hmem (by decide) (by decide))
      rintro ⟨hop, b, hbuf⟩
      have hnone : w.buffer = .none := hcar hop
      rw [hnone] at hbuf
      cases hbuf
    | compression =>
      rw [leftOver_iff_of_queued hb hw]
      exact and_iff_left_of_imp fun hop => hcar hop

/-! ### What is handed over -/

/-- What the handles of failed work show and hand over, in a state `d` and from there on. -/
structure HandsOver (p : Setup σ η κ) (d : Dispatcher σ κ) : Prop where
  /-- They never show a buffer. -/
  shown : ∀ (id : WorkId) (t : Ticket) (e : WorkError), d.tickets[id]? = some t →
    t.result = .error e → t.buffer = none
  /-- What ends with its submission has no buffer to take. -/
  submitted : ∀ (r : Submission) (t : Ticket), (d.submit p r).tickets[d.nextId]? = some t →
    t.isDone = true → t.take.1 = none
  /-- What fails in a move has a buffer to take exactly if it was left over. -/
  failed : ∀ d', Move p d d' → ∀ (id : WorkId) (t t' : Ticket) (e : WorkError),
    d.tickets[id]? = some t → d'.tickets[id]? = some t' → t.isDone = false → t'.isDone = true →
    t'.result = .error e → (t'.take.1.isSome = true ↔ LeftOver p d id)
  /-- Later there is nothing else to take, and nothing any more once it was taken. -/
  later : ∀ (id : WorkId) (t : Ticket), d.tickets[id]? = some t → t.isDone = true →
    t.take.2.take.1 = none ∧ ∀ rs' d', Run p d rs' d' → ∀ t', d'.tickets[id]? = some t' →
      t'.take.1 = t.take.1 ∨ t'.take.1 = none

theorem take_submit {r : Submission} {t : Ticket}
    (ht : (d.submit p r).tickets[d.nextId]? = some t) (hd : t.isDone = true) :
    t.take.1 = none := by
  have hnew : (d.register r.op).tickets[d.nextId]? = some { op := r.op } := by
    unfold register nextId
    simp
  rcases (publishes_submit p d r).ticket _ _ hnew with hs | ⟨hp, w, e, rfl, -, hs⟩
  · rw [hs] at ht
    obtain rfl := Option.some.inj ht
    cases hd
  · rw [hs] at ht
    obtain rfl := Option.some.inj ht
    rw [Ticket.take_eq, (Ticket.consistent_new r.op).outcome_publish hp]
    cases r <;> rfl

theorem take_failed (hb : d.InBalance) (hc : carries.Holds d) (m : Move p d d') {id : WorkId}
    {t t' : Ticket} {e : WorkError} (ht : d.tickets[id]? = some t)
    (ht' : d'.tickets[id]? = some t') (hp : t.isDone = false) (hd : t'.isDone = true)
    (he : t'.result = .error e) : t'.take.1.isSome = true ↔ LeftOver p d id := by
  have hcons := hb.consistent t (List.mem_of_getElem? ht)
  obtain ⟨u, hu, c⟩ := m.ticket ht
  obtain rfl : t' = u := by rw [ht'] at hu; exact Option.some.inj hu
  obtain ⟨o, ⟨w, r, hends, hid, rfl⟩, -, -, -, -, hpub⟩ :=
    Ticket.publish_of_change hcons hp hd c
  have hpub' : t' = t.publish (w.outcome r) := hpub
  have hout : t'.outcome = w.outcome r := by rw [hpub', hcons.outcome_publish hp]
  obtain rfl : r = .error e := by
    have : t'.outcome.result = .error e := he
    rw [hout] at this
    exact this
  -- the operation of the ticket is that of the work
  have hop : t.op = w.op := hends.op hb hid ht
  rw [Ticket.take_isSome, c.op, hop, hout, ← hid]
  exact hends.leftOver_iff hb hc

/-- In every state that a run gets into, failed work shows no buffer, and it hands one over exactly if
    it was left over. -/
theorem Run.hands_over (h₀ : Fresh p d₀) (h : Run p d₀ rs d) : HandsOver p d := by
  have hb : d.InBalance := h.balanced h₀.unused.inBalance
  have hc : carries.Holds d := h.holds (carries_stable p) (h₀.unused.holds _)
  refine ⟨fun id t e _ he => Ticket.buffer_of_error he, fun r t ht hd => take_submit ht hd, ?_,
    fun id t ht hd => ⟨Ticket.take_take t, fun rs' d' hr t' ht' => ?_⟩⟩
  · intro d' m id t t' e ht ht' hp hd he
    exact take_failed hb hc m ht ht' hp hd he
  · obtain ⟨u, hu, hk⟩ := hr.kept ht hd
    obtain rfl : t' = u := by rw [ht'] at hu; exact Option.some.inj hu
    exact hk.take

/-! ### A frame that gets out -/

/-- A setup in which every file is the byte 7, and whose codec crashes when it is asked for room. -/
def frailSetup : Setup Unit Unit Unit where
  config := {}
  ownHeap := Heaps.systemHeap
  backend :=
    { translate := fun _ path => .ok path
      openFile := fun _ _ _ => ⟨.ok (), ()⟩
      querySize := fun _ _ => ⟨.ok 1, ((), ())⟩
      read := fun _ _ dst => ⟨⟨.ok dst.size, ((), ())⟩, fun _ => 7⟩
      write := fun _ _ src => ⟨.ok src.length, ((), ())⟩
      close := fun _ _ => ⟨.ok (), ()⟩
      patience := fun _ => 0
      read_patience := fun _ _ _ h => by cases h
      write_patience := fun _ _ _ h => by cases h }
  codec :=
    { bound := fun _ _ => .error (.component "no bound")
      expansion := fun _ len => .ok len
      compress := fun _ _ dst => .refuse () dst (.compress "refused")
      decompress := fun _ _ dst => .refuse () dst (.decompress "refused") }

/-- The compression worker has crashed while the I/O worker is busy with a compressed read. -/
theorem exists_stranded : ∃ d₀ d rs w, Fresh frailSetup d₀ ∧ Run frailSetup d₀ rs d ∧
    d.heaps = .initial ∧ d.tasks.io = .busy w ∧ w.id = 0 ∧ w.op = .read ∧ w.compressed = true ∧
    d.queues.compression.closed = true := by
  let cues : List Cue :=
    [.submit (.read "f" 0 false true), .act (.push 0), .act (.pop .io),
      .submit (.write "g" [1] true), .act (.push 0), .act (.pop .compression),
      .act (.process .compression), .act (.leave .compression)]
  exact ⟨_, _, _, _, ⟨⟨⟨[], 1⟩, fun _ => none⟩, .initial, (), (), rfl⟩,
    run_of_replay (show replay frailSetup cues _ = some _ from rfl), rfl, rfl, rfl, rfl, rfl, rfl⟩

/-- The frail setup reads the one byte of a file. -/
theorem processIo_frail {w : Work} (hop : w.op = .read) (hc : w.compressed = true) :
    ∃ w' hs, Stage.processIo frailSetup .initial () w = ⟨.ok (), w', hs, ()⟩ ∧
      ∃ b, w'.buffer = .owned b ∧ b.bytes = [7] := by
  obtain ⟨⟨heap, address, layout, ⟨size, byte⟩, length⟩, hs, hn, hsize, -⟩ :=
    Heaps.serves_initial.newBuffer (n := 1) (by decide) (by decide)
  obtain rfl : size = 1 := hsize
  have htarget : Stage.readTarget frailSetup w 1 = (Heaps.systemHeap, 1) := if_pos hc
  have hfull : frailSetup.backend.readFull () () ((⟨1, byte⟩ : Span).take 1) = _ :=
    Backend.readFull_of_read (Nat.lt_add_one 0) (show 1 ≤ Size.max by decide) rfl
  unfold Stage.processIo
  rw [hop]
  dsimp only
  unfold Stage.read Stage.withFile Stage.readContents
  dsimp only [frailSetup] at htarget hfull ⊢
  rw [htarget]
  dsimp only
  have hn' : Heaps.initial.newBuffer Heaps.systemHeap 1 ({} : Config).bufferAlignment = _ := hn
  rw [hn']
  dsimp only
  rw [hfull]
  dsimp only
  have hrec : ∀ b n, Stage.received w b n = b.setLength n := by
    intro b n
    unfold Stage.received
    rw [hc]
    simp only [Bool.not_true, Bool.and_false, Bool.false_eq_true, if_false]
    cases b.setLength n <;> rfl
  rw [hrec]
  exact ⟨_, _, rfl, _, rfl, rfl⟩

/-- The I/O worker holds a frame that it cannot hand on any more. -/
theorem exists_refused : ∃ d₀ d rs w t, Fresh frailSetup d₀ ∧ Run frailSetup d₀ rs d ∧
    d.tasks.io = .handing w ∧ w.id = 0 ∧ w.op = .read ∧
    (∃ b, w.buffer = .owned b ∧ b.bytes = [7]) ∧ d.queues.compression.closed = true ∧
    d.tickets[0]? = some t ∧ t.isDone = false := by
  obtain ⟨d₀, d, rs, w, hf, hr, hheaps, ht, hid, hop, hcomp, hclosed⟩ := exists_stranded
  obtain ⟨w', hs, hproc, hbuf⟩ := processIo_frail hop hcomp
  rw [← hheaps] at hproc
  have hp := processing_of_io hproc
  have hsame := sameAs_of_processing hp
  have hh : handsOn .io w' = true := by
    show (w'.op == .read && w'.compressed) = true
    rw [hsame.op, hop, hsame.compressed, hcomp]
    rfl
  have hr' := hr.act _ (step_of_transition (.readied (s := .io) ht hp hh))
  have hb := hr'.balanced hf.unused.inBalance
  obtain ⟨t, ht, hp, -⟩ := hb.pending_of_mem
    (mem_held (h := .worker .io) (mem_worksOf_worker (s := .io) rfl List.mem_cons_self))
  rw [hsame.id, hid] at ht
  exact ⟨d₀, _, rs, w', t, hf, hr', rfl, hsame.id.trans hid, hsame.op.trans hop, hbuf, hclosed, ht,
    hp⟩

/-- Work that cannot be handed on is abandoned. -/
theorem exists_abandoned {w : Work} {t : Ticket} (hw : d.tasks.io = .handing w)
    (hc : d.queues.compression.closed = true) (ht : d.tickets[w.id]? = some t)
    (hp : t.isDone = false) : ∃ d', Move p d d' ∧
      d'.tickets[w.id]? = some (t.publish (w.outcome (.error .abandoned))) := by
  have hq : (d.queues.get Stage.io.peer).forward? (.work w) = none :=
    Queue.forward?_of_closed _ hc
  refine ⟨_, .act _ (step_of_transition (.refused (s := .io) hw hq)), ?_⟩
  show (d.abandon w).tickets[w.id]? = _
  unfold abandon
  rw [settle_of_pending ht hp]
  exact List.getElem?_set_self (List.getElem?_eq_some_iff.mp ht).1

/-- A compressed read is abandoned between the stages, and the frame can be taken from its handle. -/
theorem frame_taken_from_abandoned_read : ∃ d₀ d rs t b, Fresh frailSetup d₀ ∧
    Run frailSetup d₀ rs d ∧ d.tickets[0]? = some t ∧ t.isDone = true ∧
    t.result = .error .abandoned ∧ t.take.1 = some b ∧ b.bytes = [7] := by
  obtain ⟨d₀, d, rs, w, t, hf, hr, hw, hid, hop, ⟨b, hbuf, hbytes⟩, hclosed, ht, hp⟩ :=
    exists_refused
  have hb := hr.balanced hf.unused.inBalance
  have hcons := hb.consistent t (List.mem_of_getElem? ht)
  obtain ⟨d', m, ht'⟩ := exists_abandoned (p := frailSetup) hw hclosed (hid ▸ ht) hp
  have hout := hcons.outcome_publish hp (w.outcome (.error .abandoned))
  have htop : t.op = .read := by
    rw [Ends.op (p := frailSetup) hb (.refused (s := .io) hw) hid ht, hop]
  refine ⟨d₀, d', rs, _, b, hf, hr.move m, hid ▸ ht', ?_, ?_, ?_, hbytes⟩
  · rw [hcons.publish_of_pending hp]
    rfl
  · show (t.publish _).outcome.result = _
    rw [hout]
    rfl
  · have hop' : (t.publish (w.outcome (.error .abandoned))).op = .read := htop
    have hbuf' : (w.outcome (.error .abandoned)).buffer = .owned b := hbuf
    rw [Ticket.take_eq, hout, hop', hbuf']

/-- The read that is abandoned there shows nothing, hands its buffer over and has nothing else. -/
theorem hands_over_frail : ∃ d₀ d rs d' t, Fresh frailSetup d₀ ∧ Run frailSetup d₀ rs d ∧
    LeftOver frailSetup d 0 ∧ Move frailSetup d d' ∧ d'.tickets[0]? = some t ∧
    t.buffer = none ∧ t.take.1.isSome = true ∧ t.take.2.take.1 = none := by
  obtain ⟨d₀, d, rs, w, t, hf, hr, hw, hid, hop, -, hclosed, ht, hp⟩ := exists_refused
  have hcons := (hr.balanced hf.unused.inBalance).consistent t (List.mem_of_getElem? ht)
  obtain ⟨d', m, ht'⟩ := exists_abandoned (p := frailSetup) hw hclosed (hid ▸ ht) hp
  rw [hid] at ht'
  have hout := hcons.outcome_publish hp (w.outcome (.error .abandoned))
  have hd' : (t.publish (w.outcome (.error .abandoned))).isDone = true := by
    rw [hcons.publish_of_pending hp]
    rfl
  have he : (t.publish (w.outcome (.error .abandoned))).result = .error .abandoned :=
    congrArg Outcome.result hout
  have hl : LeftOver frailSetup d 0 := .refused w hid hop hw
  have h := Run.hands_over hf hr
  have h' := Run.hands_over hf (hr.move m)
  exact ⟨d₀, d, rs, d', _, hf, hr, hl, m, ht', h'.shown 0 _ _ ht' he,
    (h.failed d' m 0 t _ _ ht ht' hp hd' he).mpr hl, (h'.later 0 _ ht' hd').1⟩

end FilePipeline.Dispatcher
