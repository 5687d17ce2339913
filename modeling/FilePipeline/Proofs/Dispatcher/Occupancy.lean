import FilePipeline.Proofs.Dispatcher.Holdings
import FilePipeline.Proofs.Dispatcher.Placement
import FilePipeline.Proofs.Heap.Serving

/-! # How much work is in flight

Submitters are throttled by the slots of the queues, but work that one stage hands to the other takes
no slot, and its slot of the first queue is free again once it was popped. So the slots bound only the
plain work, which goes through the I/O queue alone: `Run.length_inFlight_le`. Compressed work adds to
that without a bound. While the I/O worker is busy with one piece of work, the compression worker can
hand on any number of compressed writes (`exists_flooded`), and nobody who submits them waits. -/

namespace FilePipeline.Dispatcher

variable {σ η κ : Type} {p : Setup σ η κ} {d d' d₀ : Dispatcher σ κ} {rs : List Submission}

/-- The work in the queues and with the workers. -/
def inFlight (d : Dispatcher σ κ) : List Work :=
  d.queues.io.works ++ d.queues.compression.works ++ d.tasks.io.works ++ d.tasks.compression.works

/-- How much of it is compressed. -/
def compressedInFlight (d : Dispatcher σ κ) : Nat := d.inFlight.countP Work.compressed

/-! ### Routes -/

/-- Plain work is with the I/O stage only, and takes a slot of its queue. -/
def routes : Placement where
  waiting s w := w.compressed = true ∨ s = .io
  queued s counted w := w.compressed = true ∨ (s = .io ∧ counted = true)
  busy s w := w.compressed = true ∨ s = .io
  handing _ w := w.compressed = true

theorem routes_stable (p : Setup σ η κ) : routes.Stable p where
  submit id r path := by
    cases r with
    | read => exact Or.inr rfl
    | write path data compressed =>
      cases compressed with
      | true => exact Or.inl rfl
      | false => exact Or.inr rfl
  push s w h := h.imp_right fun hs => ⟨hs, rfl⟩
  pop s c w h := h.imp_right And.left
  ready d d' s w w' hb hp hh := by
    have hw := sameAs_of_processing hp
    cases s with
    | io =>
      have hh' : (w'.op == .read && w'.compressed) = true := hh
      exact (Bool.and_eq_true _ _ ▸ hh').2
    | compression =>
      rcases hb with hb | hb
      · exact hw.compressed.trans hb
      · cases hb
  hand s w h := Or.inl h

/-! ### The bound -/

theorem countP_works_le {q : Queue Work} {P : Work → Bool}
    (h : ∀ e ∈ q.entries, ∀ w, e.item = .work w → P w = true → e.counted = true) :
    q.works.countP P ≤ q.slotsTaken := by
  unfold Queue.works Item.works Queue.items Queue.slotsTaken
  rw [List.countP_filterMap, List.countP_map]
  refine List.countP_mono_left fun e he hp => ?_
  cases hi : e.item with
  | work w =>
    refine h e he w hi ?_
    simpa [hi, Item.work?] using hp
  | pill => simp [hi, Item.work?] at hp

theorem countP_plain_eq_zero {ws : List Work} (h : ∀ w ∈ ws, w.compressed = true) :
    ws.countP (fun w => !w.compressed) = 0 := by
  rw [List.countP_eq_zero]
  intro w hw
  simp [h w hw]

theorem length_works_le (t : Task) : t.works.length ≤ 1 := by
  cases t <;> simp [Task.works]

theorem compressed_of_mem_task (h : routes.Holds d) {w : Work}
    (hw : w ∈ d.tasks.compression.works) : w.compressed = true := by
  have ht := h.task .compression
  unfold PerStage.get at ht
  dsimp only at ht
  cases hc : d.tasks.compression with
  | busy v =>
    rw [hc] at ht hw
    obtain rfl := List.mem_singleton.mp hw
    rcases ht with ht | ht
    · exact ht
    · cases ht
  | handing v =>
    rw [hc] at ht hw
    obtain rfl := List.mem_singleton.mp hw
    exact ht
  | _ => rw [hc] at hw; cases hw

theorem compressed_of_mem_queue (h : routes.Holds d) {w : Work}
    (hw : w ∈ d.queues.compression.works) : w.compressed = true := by
  obtain ⟨e, he, hitem⟩ := List.mem_map.mp (Item.mem_works.mp hw)
  rcases h.queued .compression e he w hitem with hc | ⟨hs, -⟩
  · exact hc
  · cases hs

/-- The work in flight is at most the slots of one queue, one piece more, and what is compressed. -/
theorem Run.length_inFlight_le (h₀ : Fresh p d₀) (h : Run p d₀ rs d) :
    d.inFlight.length ≤ p.config.queueCapacity + 1 + d.compressedInFlight := by
  have hr : routes.Holds d := h.holds (routes_stable p) (h₀.unused.holds _)
  obtain ⟨hsound, hcap⟩ := h.soundQueues h₀.unused.sound .io
  have hio : d.queues.io.works.countP (fun w => !w.compressed) ≤ p.config.queueCapacity := by
    have hslots := countP_works_le (q := d.queues.io) (P := fun w => !w.compressed)
      fun e he w hw hp => by
        rcases hr.queued .io e he w hw with hc | ⟨-, hc⟩
        · simp [hc] at hp
        · exact hc
    have ha := hsound.admitted
    have hb := hsound.bound
    rw [hcap] at hb
    exact hslots.trans (ha ▸ hb)
  have hq : d.queues.compression.works.countP (fun w => !w.compressed) = 0 :=
    countP_plain_eq_zero fun w hw => compressed_of_mem_queue hr hw
  have ht : d.tasks.compression.works.countP (fun w => !w.compressed) = 0 :=
    countP_plain_eq_zero fun w hw => compressed_of_mem_task hr hw
  have hone : d.tasks.io.works.countP (fun w => !w.compressed) ≤ 1 :=
    List.countP_le_length.trans (length_works_le _)
  have hplain : d.inFlight.countP (fun w => !w.compressed) ≤ p.config.queueCapacity + 1 := by
    unfold inFlight
    rw [List.countP_append, List.countP_append, List.countP_append]
    omega
  have hall := List.length_eq_countP_add_countP Work.compressed (l := d.inFlight)
  have hneg : d.inFlight.countP (fun w => decide ¬w.compressed = true) =
      d.inFlight.countP (fun w => !w.compressed) := by
    congr 1
    funext w
    cases w.compressed <;> rfl
  unfold compressedInFlight
  omega

/-! ### A flood of compressed writes -/

/-- An empty write is framed without error. -/
theorem compress_of_serves {hs : Heaps} (h : hs.Serves) {w : Work} {c : Nat} (hop : w.op = .write)
    (hb : w.buffer = .caller []) :
    ∃ w' hs', Stage.processCompression (scriptedSetup c {}) hs () w = ⟨.ok (), w', hs', ()⟩ ∧
      hs'.Serves := by
  obtain ⟨b, hs₁, hn, hsize, hs'⟩ := h.newBuffer (n := 4) (by decide) (by decide)
  obtain ⟨heap, address, layout, ⟨size, byte⟩, length⟩ := b
  obtain rfl : size = 4 := hsize
  have hn' : hs.newBuffer (scriptedSetup c {}).ownHeap 4
      (scriptedSetup c {}).config.bufferAlignment = _ := hn
  have hbound : Frame.bound (Codec.scripted {}) () 0 = .ok 4 := rfl
  have hcodec : (scriptedSetup c {}).codec = Codec.scripted {} := rfl
  unfold Stage.processCompression
  rw [hop]
  dsimp only
  unfold Stage.compress
  rw [hb]
  dsimp only [WorkBuffer.bytes, WorkBuffer.bytes?, Option.getD_some, List.length_nil]
  rw [hcodec, hbound]
  dsimp only
  rw [hn']
  refine ⟨_, _, rfl, ?_⟩
  unfold Work.carry
  rw [hb]
  exact hs'

/-- The I/O worker is busy with the first piece of work, nobody waits, and behind that piece there
    are `k` compressed and `a` plain pieces in the I/O queue. -/
structure Stalled (c k a : Nat) (d : Dispatcher Backend.Scripted.Store Unit) : Prop where
  running : d.halt = .running
  waiting : d.waiting = []
  busy : ∃ w, d.tasks = ⟨.busy w, .idle⟩ ∧ w.id = 0 ∧ w.compressed = false
  compression : d.queues.compression = .ofCapacity c
  opened : d.queues.io.closed = false
  capacity : d.queues.io.capacity = max c 1
  admitted : d.queues.io.admitted = a
  compressed : d.queues.io.works.countP Work.compressed = k
  length : d.queues.io.works.length = k + a
  serves : d.heaps.Serves

/-- Work that is submitted while nobody waits is pushed if there is a slot. -/
theorem run_pushed {r : Submission} {path : PathField} (hrun : d.halt = .running)
    (hw : d.waiting = []) (hpath : PathField.ofString? r.path = .ok path)
    (ho : (d.queues.get (firstStage r)).closed = false)
    (ha : (d.queues.get (firstStage r)).admitted < (d.queues.get (firstStage r)).capacity) :
    Run p d [r] ((d.register r.op).setQueue (firstStage r)
      ((d.queues.get (firstStage r)).append
        (.work { Work.ofSubmission d.nextId p.ownHeap r with path }) true)) := by
  have hsub : d.submit p r = { d.register r.op with
      waiting := [(firstStage r, { Work.ofSubmission d.nextId p.ownHeap r with path })] } := by
    unfold submit
    rw [hpath, hw]
    rfl
  have hr : Run p d [r] (d.submit p r) := Run.start.submit r hrun
  rw [hsub] at hr
  have hpush := step_of_transition (Transition.pushed (p := p) (i := 0)
    (d := { d.register r.op with
      waiting := [(firstStage r, { Work.ofSubmission d.nextId p.ownHeap r with path })] })
    rfl (Queue.offer_of_lt _ ho ha))
  have hr' := hr.act _ hpush
  have he : { d.register r.op with waiting := [] } = d.register r.op := by
    unfold register
    rw [← hw]
  rw [← he]
  exact hr'

theorem Stalled.plain {c k a : Nat} {d : Dispatcher Backend.Scripted.Store Unit}
    (h : Stalled c k a d) (ha : a < c) :
    ∃ d', Run (scriptedSetup c {}) d [.write "f" [] false] d' ∧ Stalled c k (a + 1) d' := by
  have hpush := run_pushed (p := scriptedSetup c {}) (r := .write "f" [] false) h.running h.waiting
    rfl h.opened (by
      show d.queues.io.admitted < d.queues.io.capacity
      rw [h.admitted, h.capacity]
      omega)
  refine ⟨_, hpush, h.running, h.waiting, h.busy, h.compression, h.opened, h.capacity, ?_, ?_, ?_,
    h.serves⟩
  · show d.queues.io.admitted + 1 = a + 1
    rw [h.admitted]
  · show (d.queues.io.append _ true).works.countP Work.compressed = k
    rw [Queue.works_append_work, List.countP_append, h.compressed]
    rfl
  · show (d.queues.io.append _ true).works.length = k + (a + 1)
    rw [Queue.works_append_work, List.length_append, h.length]
    rfl

/-- A write that the compression worker takes out of its queue, processes without error and hands
    on. -/
theorem run_passed {w w' : Work} {q : Queue Work} {hs : Heaps} {codec : κ}
    (hidle : d.tasks.compression = .idle)
    (hpop : d.queues.compression.pop? = .item (.work w) q)
    (hproc : Stage.processCompression p d.heaps d.codec w = ⟨.ok (), w', hs, codec⟩)
    (hop : w.op = .write) (ho : d.queues.io.closed = false) :
    Run p d [] { d with
      queues := ⟨d.queues.io.append (.work w') false, q⟩
      tasks := ⟨d.tasks.io, .idle⟩
      heaps := hs
      codec := codec } := by
  have hpopped := (Run.start (p := p)).act _
    (step_of_transition (.popped (s := .compression) hidle hpop))
  have hready : handsOn .compression w' = true := by
    have hsame := Stage.work_processCompression p d.heaps d.codec w
    rw [hproc] at hsame
    show (w'.op == .write) = true
    rw [hsame.op, hop]
    rfl
  have hprocessed := processing_of_compression
    (d := (d.setQueue .compression q).setTask .compression (.busy w)) hproc
  have hreadied := hpopped.act _ (step_of_transition (.readied rfl hprocessed hready))
  exact hreadied.act _ (step_of_transition (.handed (s := .compression) rfl
    (Queue.forward?_of_open (.work w') ho)))

/-- A compressed write is pushed, framed and handed on, whatever the I/O worker does. -/
theorem Stalled.compressed_write {c k a : Nat} {d : Dispatcher Backend.Scripted.Store Unit}
    (h : Stalled c k a d) :
    ∃ d', Run (scriptedSetup c {}) d [.write "f" [] true] d' ∧ Stalled c (k + 1) a d' := by
  obtain ⟨w₀, htasks, hid, hplain⟩ := h.busy
  have hpush := run_pushed (p := scriptedSetup c {}) (r := .write "f" [] true) h.running h.waiting
    rfl (by show d.queues.compression.closed = false; rw [h.compression]; rfl)
    (by
      show d.queues.compression.admitted < d.queues.compression.capacity
      rw [h.compression]
      show 0 < max c 1
      omega)
  generalize hw : ({ Work.ofSubmission d.nextId (scriptedSetup c {}).ownHeap
    (.write "f" [] true) with path := _ } : Work) = w at hpush
  have hop : w.op = .write := by rw [← hw]; rfl
  obtain ⟨w', hs', hframed, hserves⟩ := compress_of_serves h.serves hop (by rw [← hw]; rfl)
  have hcomp : w'.compressed = true := by
    have hsame := Stage.work_processCompression (scriptedSetup c {}) d.heaps () w
    rw [hframed] at hsame
    rw [hsame.compressed, ← hw]
    rfl
  have hpop : (d.queues.compression.append (.work w) true).pop? =
      .item (.work w) (.ofCapacity c) := by
    rw [h.compression]
    rfl
  have htasks' : (⟨d.tasks.io, .idle⟩ : PerStage Task) = ⟨.busy w₀, .idle⟩ := by rw [htasks]
  have hpass := run_passed (p := scriptedSetup c {})
    (d := (d.register .write).setQueue .compression
      (d.queues.compression.append (.work w) true))
    (congrArg PerStage.compression htasks) hpop hframed hop h.opened
  refine ⟨_, hpush.trans hpass, h.running, h.waiting,
    ⟨w₀, htasks', hid, hplain⟩, rfl, h.opened, h.capacity,
    h.admitted, ?_, ?_, hserves⟩
  · show (d.queues.io.append _ false).works.countP Work.compressed = k + 1
    rw [Queue.works_append_work, List.countP_append, h.compressed]
    simp [hcomp]
  · show (d.queues.io.append _ false).works.length = k + 1 + a
    rw [Queue.works_append_work, List.length_append, h.length, List.length_singleton]
    omega

/-- A dispatcher whose queues fit into memory can be started over scripted files. -/
theorem exists_fresh {c : Nat} (hc : 1 ≤ c) (hfit : c * 16 ≤ Queue.maxBytes) :
    ∃ d, Fresh (scriptedSetup c {}) d ∧ d.heaps.Serves := by
  have halign : isPowerOfTwo defaultAlignment = true := by decide +kernel
  have hnames : ("lzfs-io".isEmpty || "lzfs-compress".isEmpty) = false := by decide +kernel
  have hv : (Config.withCapacity c).validate = .ok () := by
    unfold Config.validate
    rw [if_neg (by show c ≠ 0; omega)]
    unfold Config.withCapacity
    dsimp only
    rw [halign, hnames]
    rfl
  have hq : (Queue.ofReferences c : Except Crash (Queue Work)) = .ok (.ofCapacity c) := by
    unfold Queue.ofReferences Queue.create
    rw [Nat.max_eq_left hc]
    exact if_pos hfit
  have hstart : ∃ d, (start (scriptedSetup c {}) ⟨⟨[], 1⟩, fun _ => none⟩ .initial {} ()).answer =
      .ok d ∧ d.heaps = .initial := by
    have hv' : (scriptedSetup c {}).config.validate = .ok () := hv
    have hq' : (Queue.ofReferences (scriptedSetup c {}).config.queueCapacity :
        Except Crash (Queue Work)) = .ok (.ofCapacity c) := hq
    unfold start
    rw [hv', hq']
    exact ⟨_, rfl, rfl⟩
  obtain ⟨d, hd, hh⟩ := hstart
  exact ⟨d, ⟨_, _, _, _, hd⟩, by rw [hh]; exact Heaps.serves_initial⟩

/-- The I/O worker takes up a plain write and gets no further. -/
theorem exists_stalled {c : Nat} (hc : 1 ≤ c) (hfit : c * 16 ≤ Queue.maxBytes) :
    ∃ d₀ d, Fresh (scriptedSetup c {}) d₀ ∧
      Run (scriptedSetup c {}) d₀ [.write "f" [] false] d ∧ Stalled c 0 0 d := by
  obtain ⟨d₀, hf, hserves⟩ := exists_fresh hc hfit
  have hu := hf.unused
  have hio : d₀.queues.io = .ofCapacity c := by rw [hu.queues]; rfl
  have hpush := run_pushed (p := scriptedSetup c {}) (r := .write "f" [] false) hu.halt hu.waiting
    rfl (by show d₀.queues.io.closed = false; rw [hio]; rfl)
    (by
      show d₀.queues.io.admitted < d₀.queues.io.capacity
      rw [hio]
      show 0 < max c 1
      omega)
  generalize hw : ({ Work.ofSubmission d₀.nextId (scriptedSetup c {}).ownHeap
    (.write "f" [] false) with path := _ } : Work) = w at hpush
  have hpop : (d₀.queues.io.append (.work w) true).pop? = .item (.work w) (.ofCapacity c) := by
    rw [hio]
    rfl
  have hidle : d₀.tasks.io = .idle := congrArg PerStage.io hu.tasks
  have htasks : (⟨.busy w, d₀.tasks.compression⟩ : PerStage Task) = ⟨.busy w, .idle⟩ := by
    rw [hu.tasks]
  have hid : w.id = 0 := by
    rw [← hw]
    show d₀.tickets.length = 0
    rw [hu.tickets]
    rfl
  have hplain : w.compressed = false := by rw [← hw]; rfl
  refine ⟨d₀, _, hf, hpush.act _ (step_of_transition (.popped (s := .io) hidle hpop)), hu.halt,
    hu.waiting, ⟨w, htasks, hid, hplain⟩, ?_, rfl, rfl, rfl, rfl, rfl, hserves⟩
  show d₀.queues.compression = .ofCapacity c
  rw [hu.queues]
  rfl

/-- With the I/O worker busy, any number of compressed writes get into its queue, and still as many
    plain ones as it has slots. -/
theorem exists_flooded {c : Nat} (hc : 1 ≤ c) (hfit : c * 16 ≤ Queue.maxBytes) (k : Nat) {a : Nat}
    (ha : a ≤ c) : ∃ d₀ d rs, Fresh (scriptedSetup c {}) d₀ ∧
      Run (scriptedSetup c {}) d₀ rs d ∧ Stalled c k a d := by
  induction a with
  | zero =>
    induction k with
    | zero =>
      obtain ⟨d₀, d, hf, hr, hs⟩ := exists_stalled hc hfit
      exact ⟨d₀, d, _, hf, hr, hs⟩
    | succ k ih =>
      obtain ⟨d₀, d, rs, hf, hr, hs⟩ := ih
      obtain ⟨d', hr', hs'⟩ := hs.compressed_write
      exact ⟨d₀, d', _, hf, hr.trans hr', hs'⟩
  | succ a ih =>
    obtain ⟨d₀, d, rs, hf, hr, hs⟩ := ih (by omega)
    obtain ⟨d', hr', hs'⟩ := hs.plain (by omega)
    exact ⟨d₀, d', _, hf, hr.trans hr', hs'⟩

theorem Stalled.inFlight {c k a : Nat} {d : Dispatcher Backend.Scripted.Store Unit}
    (h : Stalled c k a d) : d.inFlight.length = k + a + 1 ∧ d.compressedInFlight = k := by
  obtain ⟨w, htasks, -, hw⟩ := h.busy
  have he : d.inFlight = d.queues.io.works ++ [] ++ [w] ++ [] := by
    unfold Dispatcher.inFlight
    rw [h.compression, htasks]
    rfl
  unfold compressedInFlight
  rw [he, List.append_nil, List.append_nil]
  constructor
  · rw [List.length_append, h.length]
    rfl
  · rw [List.countP_append, h.compressed]
    simp [hw]

/-- Twice the slots and two pieces more bound the work in flight exactly as long as no more than one
    queue's slots and one piece more of it are compressed; and any amount of compressed work can be in
    flight while the I/O worker is still busy with the first piece of work and nobody waits. -/
theorem in_flight_bound_exact (c k : Nat) (hc : 1 ≤ c) (hfit : c * 16 ≤ Queue.maxBytes) :
    ((∀ (σ η κ : Type) (p : Setup σ η κ) (d₀ d : Dispatcher σ κ) (rs : List Submission),
        p.config.queueCapacity = c → Fresh p d₀ → Run p d₀ rs d → d.compressedInFlight ≤ k →
        d.inFlight.length ≤ 2 * c + 2) ↔ k ≤ c + 1) ∧
    ∃ d₀ d rs, Fresh (scriptedSetup c {}) d₀ ∧ Run (scriptedSetup c {}) d₀ rs d ∧
      d.waiting = [] ∧ (∃ w, d.tasks.io = .busy w ∧ w.id = 0) ∧
      d.compressedInFlight = k ∧ d.inFlight.length = k + c + 1 := by
  obtain ⟨d₀, d, rs, hf, hr, hs⟩ := exists_flooded hc hfit k (Nat.le_refl c)
  obtain ⟨hlen, hcomp⟩ := hs.inFlight
  obtain ⟨w, htasks, hid, -⟩ := hs.busy
  refine ⟨⟨fun h => ?_, ?_⟩, d₀, d, rs, hf, hr, hs.waiting, ⟨w, by rw [htasks], hid⟩, hcomp, hlen⟩
  · have := h _ _ _ (scriptedSetup c {}) d₀ d rs rfl hf hr (Nat.le_of_eq hcomp)
    omega
  · rintro hk σ η κ p d₀ d rs rfl hf hr hle
    have := hr.length_inFlight_le hf
    omega

/-- With one slot for each queue there can be more than four pieces of work in flight. -/
theorem in_flight_bound_exact_of_one_slot :
    1 ≤ 1 ∧ 1 * 16 ≤ Queue.maxBytes ∧
      ∃ d₀ d rs, Fresh (scriptedSetup 1 {}) d₀ ∧ Run (scriptedSetup 1 {}) d₀ rs d ∧
        d.inFlight.length = 5 := by
  have hfit : 1 * 16 ≤ Queue.maxBytes := by decide
  obtain ⟨-, d₀, d, rs, hf, hr, -, -, -, hlen⟩ := in_flight_bound_exact 1 3 (Nat.le_refl 1) hfit
  exact ⟨Nat.le_refl 1, hfit, d₀, d, rs, hf, hr, hlen⟩

/-- The cues of a run in which the I/O worker is busy with a plain write while three compressed writes
    pass the compression worker. -/
def floodCues : List Cue :=
  let pass : List Cue :=
    [.submit (.write "w" [1] true), .act (.push 0), .act (.pop .compression),
      .act (.process .compression), .act (.hand .compression)]
  [.submit (.write "p0" [1] false), .act (.push 0), .act (.pop .io)] ++ pass ++ pass ++ pass ++
    [.submit (.write "p1" [1] false), .act (.push 0)]

/-- Five pieces of work are in flight although each queue has one slot. -/
theorem five_in_flight :
    ∃ d₀ d rs, Fresh (scriptedSetup 1 {}) d₀ ∧ Run (scriptedSetup 1 {}) d₀ rs d ∧
      ¬ d.inFlight.length ≤ 2 * 1 + 2 := by
  have h : ((scripted? 1 {} {}).bind (replay (scriptedSetup 1 {}) floodCues)).any
      (fun d => ¬ d.inFlight.length ≤ 2 * 1 + 2) = true := by
    decide +kernel
  obtain ⟨d, hd, hlen⟩ := Option.any_eq_true _ _ |>.mp h
  obtain ⟨d₀, h₀, hr⟩ := Option.bind_eq_some_iff.mp hd
  exact ⟨d₀, d, _, fresh_scripted h₀, run_of_replay hr, of_decide_eq_true hlen⟩

end FilePipeline.Dispatcher
