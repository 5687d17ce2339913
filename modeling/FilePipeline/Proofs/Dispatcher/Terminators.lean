import FilePipeline.Proofs.Dispatcher.LastTurns
import FilePipeline.Proofs.Heap.Serving
import FilePipeline.Proofs.Stage.Sizes
import FilePipeline.Proofs.Stage.Terminators

/-! # Terminators

A read that was to be terminated and has succeeded shows its bytes with a zero behind them. But a handle
looks neither at what was asked for nor at how the read has ended: whatever buffer it holds, it shows one
more byte if there is room for it. So a byte nobody asked for is shown of a plain read whose file was
shorter than the backend said, and of a read that has failed after it had loaded its file, if that was so
or a terminator stands there already (`Recorded.terminators`). All other work shows none. -/

namespace FilePipeline

theorem Ticket.terminated_of_read {t : Ticket} (h : t.op = .read) :
    t.terminated = t.outcome.buffer.terminated? := by
  unfold Ticket.terminated Ticket.outcome
  rw [h]
  cases t.look.1.buffer <;> rfl

theorem Ticket.terminated_of_write {t : Ticket} (h : t.op = .write) : t.terminated = none := by
  unfold Ticket.terminated
  rw [h]
  cases t.look.1.buffer <;> rfl

theorem Ticket.buffer_of_handedOver {t : Ticket} (h : t.HandedOver) : t.outcome.buffer = .none := by
  obtain ⟨o, hs, hb⟩ := h
  unfold Ticket.outcome Ticket.look
  rw [hs]
  exact hb

namespace Dispatcher

open Backend (HonestButSizes)
open Stage (HasLoaded TooLarge)

variable {σ η κ ν : Type} {p : Setup σ η κ} {v : View σ η ν} {d d₀ : Dispatcher σ κ}
  {rs : List Submission} {ts : List (Turn σ κ)} {id : WorkId} {r : Submission} {o : Outcome} {t : Ticket}
  {path : String} {heap : HeapId} {nullTerminate compressed : Bool}

/-! ### I/O turns of reads -/

theorem Recorded.buffer_of_read (h₀ : Unused p d₀) (h : Recorded p d₀ rs ts d) {u : Turn σ κ}
    (hu : u ∈ ts) (hio : u.stage = .io) (hop : u.work.op = .read) : u.work.buffer = .none := by
  rcases h.origin h₀ hu with ⟨r, path, -, -, -, hw⟩ | ⟨t, -, hon, -⟩
  · cases r with
    | read => rw [hw]; rfl
    | write =>
      rw [hw] at hop
      cases hop
  · have hstage := hon.stage
    rw [(Turn.io_of_readied hon.readied (hon.sameAs.op.symm.trans hop)).1, hio] at hstage
    cases hstage

theorem Recorded.sound_before (hb : p.backend.HonestButSizes v) (hs : v.sound d₀.backend)
    (h : Recorded p d₀ rs ts d) {u : Turn σ κ} (hu : u ∈ ts) : v.sound u.before.backend := by
  obtain ⟨ts₁, ts₂, rfl⟩ := List.append_of_mem hu
  rw [h.backend_at rfl]
  exact effects_of_processIo (S := v.sound) (fun t _ _ _ => Stage.sound_of_processIo t.before.heaps hb) hs

/-- A read has loaded its file in the turn `u`, and has come no further. -/
structure Strands (p : Setup σ η κ) (ts : List (Turn σ κ)) (u : Turn σ κ) : Prop where
  loaded : ∃ b, (u.after p).buffer = .owned b
  last : ∀ x ∈ ts, x.work.id = u.work.id → x.stage = .io

/-! ### How reads end -/

/-- The ways in which the read with a number has ended with the outcome `o`, by what that shows. -/
inductive ReadEnd (p : Setup σ η κ) (v : View σ η ν) (ts : List (Turn σ κ)) (id : WorkId)
    (nullTerminate compressed : Bool) (o : Outcome) : Prop
  | empty (hb : o.buffer = .none) (hfail : o.result ≠ .ok ())
      (hno : ∀ u ∈ ioTurns ts, u.work.id = id → ¬ Strands p ts u)
  /-- It holds what it has loaded; a compressed one has failed then. -/
  | loaded {u : Turn σ κ} (hu : u ∈ ioTurns ts) (hid : u.work.id = id)
      (hplain : o.result = .ok () → compressed = false) (hstrands : Strands p ts u)
      (hsize : o.size = o.buffer.bytes.length)
      (hexposes : o.buffer.Exposes (nullTerminate && !compressed)
        ((nullTerminate && !compressed) = true ∨ TooLarge p v u.before.backend u.work))
  | unpacked (hok : o.result = .ok ()) (hcompressed : compressed = true)
      (hsize : o.size = o.buffer.bytes.length)
      (hexposes : o.buffer.Exposes nullTerminate (nullTerminate = true))

theorem Turn.eq_processIo {u : Turn σ κ} (hio : u.stage = .io) :
    u.after p = (Stage.processIo p u.before.heaps u.before.backend u.work).work ∧
      u.result p = (Stage.processIo p u.before.heaps u.before.backend u.work).result := by
  unfold Turn.after Turn.result
  rw [hio]
  exact ⟨rfl, rfl⟩

theorem Turn.eq_processCompression {u : Turn σ κ} (hc : u.stage = .compression) :
    u.after p = (Stage.processCompression p u.before.heaps u.before.codec u.work).work ∧
      u.result p = (Stage.processCompression p u.before.heaps u.before.codec u.work).result := by
  unfold Turn.after Turn.result
  rw [hc]
  exact ⟨rfl, rfl⟩

section

variable (h₀ : Unused p d₀) (h : Recorded p d₀ rs ts d)
  (hr : rs[id]? = some (.read path heap nullTerminate compressed)) {u x : Turn σ κ} (hu : u ∈ ts)
  (hid : u.work.id = id)

include h₀ h hr hu hid

theorem Recorded.asked_of_read :
    u.work.op = .read ∧ u.work.nullTerminate = nullTerminate ∧ u.work.compressed = compressed := by
  have ha := (h.origin h₀ hu).of_submission (by rw [hid]; exact hr)
  exact ⟨ha.op, ha.read⟩

theorem Recorded.io_of_readied (hready : u.readied p = true) : u.stage = .io ∧ compressed = true := by
  obtain ⟨hop, -, hcompressed⟩ := h.asked_of_read h₀ hr hu hid
  obtain ⟨hio, hcomp⟩ := Turn.io_of_readied hready hop
  exact ⟨hio, hcompressed.symm.trans hcomp⟩

theorem ReadEnd.of_loaded (hb : p.backend.HonestButSizes v) (hs : v.sound d₀.backend) {size n : Nat}
    (hio : u.stage = .io) (hl : HasLoaded p u.before.backend u.work (u.after p) size n)
    (hlast : ∀ y ∈ ts, y.work.id = id → y.stage = .io) {e : Except WorkError Unit}
    (hplain : e = .ok () → compressed = false) :
    ReadEnd p v ts id nullTerminate compressed ((u.after p).outcome e) := by
  obtain ⟨-, hnull, hcompressed⟩ := h.asked_of_read h₀ hr hu hid
  have hexposes := hl.exposes hb (h.sound_before hb hs hu)
  rw [hnull, hcompressed] at hexposes
  rw [← hid] at hlast
  exact .loaded (mem_ioTurns.mpr ⟨hu, hio⟩) hid hplain ⟨hl.buffer, hlast⟩ hl.measured hexposes

theorem ReadEnd.of_io (hb : p.backend.HonestButSizes v) (hs : v.sound d₀.backend)
    (hready : u.readied p = false) (hio : u.stage = .io) :
    ReadEnd p v ts id nullTerminate compressed ((u.after p).outcome (u.verdict p)) := by
  obtain ⟨hop, -, hcompressed⟩ := h.asked_of_read h₀ hr hu hid
  obtain ⟨hafter, hresult⟩ := Turn.eq_processIo (p := p) hio
  have hlast : ∀ y ∈ ts, y.work.id = id → y.stage = .io := by
    intro y hy hidy
    rcases h.before_last h₀ hy hu (hidy.trans hid.symm) hready with rfl | hon
    · exact hio
    · exact (h.io_of_readied h₀ hr hy hidy hon.readied).1
  have loaded : ∀ {size n : Nat} {e : Except WorkError Unit},
      HasLoaded p u.before.backend u.work (u.after p) size n → (e = .ok () → compressed = false) →
      ReadEnd p v ts id nullTerminate compressed ((u.after p).outcome e) := fun hl hplain =>
    .of_loaded h₀ h hr hu hid hb hs hio hl hlast hplain
  rcases Stage.processIo_read_cases p u.before.heaps u.before.backend hop with
    ⟨hok, size, n, hl⟩ | ⟨-, ⟨c, hc⟩, size, n, hl⟩ | ⟨-, ⟨f, hf⟩, hkept⟩
  · rw [← hafter] at hl
    refine loaded hl fun _ => ?_
    -- a compressed one would have been handed on
    by_contra hne
    have hon : u.readied p = true := by
      rw [Turn.readied_iff, hio]
      refine ⟨hresult.trans hok, ?_⟩
      unfold handsOn
      rw [(u.after_sameAs p).op, (u.after_sameAs p).compressed, hop, hcompressed,
        eq_true_of_ne_false hne]
      rfl
    cases hready.symm.trans hon
  · rw [← hafter] at hl
    refine loaded hl fun hok => ?_
    rw [Turn.verdict_eq_ok, hresult, hc] at hok
    cases hok
  · have hnone : (u.after p).buffer = .none := by
      rw [hafter, hkept]
      exact h.buffer_of_read h₀ hu hio hop
    refine .empty hnone (fun hok => ?_) fun y hy hidy hstrands => ?_
    · have hok : u.result p = .ok () := Turn.verdict_eq_ok.mp hok
      rw [hresult, hf] at hok
      cases hok
    · obtain rfl := h.eq_of_io h₀ hy (mem_ioTurns.mpr ⟨hu, hio⟩) (hidy.trans hid.symm)
      obtain ⟨b, hb⟩ := hstrands.loaded
      cases hnone.symm.trans hb

theorem ReadEnd.of_compression (hc : u.stage = .compression) :
    ReadEnd p v ts id nullTerminate compressed ((u.after p).outcome (u.verdict p)) := by
  obtain ⟨hop, hnull, -⟩ := h.asked_of_read h₀ hr hu hid
  obtain ⟨hafter, hresult⟩ := Turn.eq_processCompression (p := p) hc
  by_cases hok : u.result p = .ok ()
  · obtain ⟨y, hy, hon⟩ := h.handed_by_io h₀ hu hc hop
    have hcomp : compressed = true :=
      (h.io_of_readied h₀ hr (mem_ioTurns.mp hy).1 (hon.sameAs.id.symm.trans hid) hon.readied).2
    have hexposes := Stage.exposes_decompressed hop (hresult.symm.trans hok)
    have hmeasured := Stage.measured_decompressed hop (hresult.symm.trans hok)
    rw [← hafter] at hexposes hmeasured
    rw [hnull] at hexposes
    exact .unpacked (Turn.verdict_eq_ok.mpr hok) hcomp hmeasured hexposes
  · have hnone : (u.after p).buffer = .none := by
      rw [hafter, Stage.work_of_failed_decompress hop (by rw [← hresult]; exact hok)]
    refine .empty hnone (fun he => hok (Turn.verdict_eq_ok.mp he)) fun y hy hidy hstrands => ?_
    have hio := hstrands.last u hu (hid.trans hidy.symm)
    rw [hc] at hio
    cases hio

end

theorem Recorded.read_end (h₀ : Unused p d₀) (hb : p.backend.HonestButSizes v)
    (hs : v.sound d₀.backend) (h : Recorded p d₀ rs ts d)
    (hr : rs[id]? = some (.read path heap nullTerminate compressed)) (hlast : LastTurn p rs ts id o) :
    ReadEnd p v ts id nullTerminate compressed o := by
  cases hlast with
  | @none r e hr' hno =>
    obtain rfl := Option.some.inj (hr.symm.trans hr')
    exact .empty rfl (fun hok => by cases hok) fun u hu hid => absurd hid (hno u (mem_ioTurns.mp hu).1)
  | @ended u hu hid hready =>
    cases hstage : u.stage with
    | io => exact .of_io h₀ h hr hu hid hb hs hready hstage
    | compression => exact .of_compression h₀ h hr hu hid hstage
  | @dropped u hu hid hready honly =>
    obtain ⟨hop, -, -⟩ := h.asked_of_read h₀ hr hu hid
    obtain ⟨hio, -⟩ := h.io_of_readied h₀ hr hu hid hready
    obtain ⟨hafter, hresult⟩ := Turn.eq_processIo (p := p) hio
    have hok := (Turn.readied_iff.mp hready).1
    rw [hresult] at hok
    rcases Stage.processIo_read_cases p u.before.heaps u.before.backend hop with
      ⟨-, size, n, hl⟩ | ⟨-, ⟨c, hc⟩, -⟩ | ⟨-, ⟨f, hf⟩, -⟩
    · rw [← hafter] at hl
      exact .of_loaded h₀ h hr hu hid hb hs hio hl (fun y hy hidy => by rw [honly y hy hidy, hio])
        fun he => by cases he
    · cases hok.symm.trans hc
    · cases hok.symm.trans hf

/-! ### What handles show -/

/-- What the handle of a read that has ended shows behind its bytes. -/
structure ReadTerminators (p : Setup σ η κ) (v : View σ η ν) (ts : List (Turn σ κ)) (id : WorkId)
    (nullTerminate compressed : Bool) (t : Ticket) : Prop where
  /-- A terminator that was asked for is there if the read has succeeded, until the buffer is taken. -/
  asked : nullTerminate = true → t.result = .ok () → ¬ t.HandedOver →
    ∃ data, t.buffer = some data ∧ t.terminated = some (data ++ [0]) ∧ t.size = data.length
  /-- If none was asked for, a byte is shown only of a plain file that is shorter than was told. -/
  unasked : nullTerminate = false → t.result = .ok () → (t.terminated.isSome = true ↔
    ¬ t.HandedOver ∧ compressed = false ∧
      ∃ u ∈ ioTurns ts, u.work.id = id ∧ TooLarge p v u.before.backend u.work)
  /-- If the read has failed, one is shown only if it had loaded its file by then and got no further, and
      there is room for one. -/
  failed : t.result ≠ .ok () → (t.terminated.isSome = true ↔
    ¬ t.HandedOver ∧ ∃ u ∈ ioTurns ts, u.work.id = id ∧ Strands p ts u ∧
      ((nullTerminate && !compressed) = true ∨ TooLarge p v u.before.backend u.work))

/-- What the handle of work shows behind its bytes that was submitted as `r` and has ended. -/
structure Terminators (p : Setup σ η κ) (v : View σ η ν) (ts : List (Turn σ κ)) (id : WorkId)
    (r : Submission) (t : Ticket) : Prop where
  write : r.op = .write → t.terminated = none
  read : ∀ path heap nullTerminate compressed, r = .read path heap nullTerminate compressed →
    ReadTerminators p v ts id nullTerminate compressed t

theorem ReadTerminators.of_handedOver (hop : t.op = .read) (hh : t.HandedOver) :
    ReadTerminators p v ts id nullTerminate compressed t := by
  have hnone : ¬ t.terminated.isSome = true := by
    rw [Ticket.terminated_of_read hop, Ticket.buffer_of_handedOver hh]
    exact Bool.false_ne_true
  exact ⟨fun _ _ hno => absurd hh hno, fun _ _ => iff_of_false hnone fun hs => hs.1 hh,
    fun _ => iff_of_false hnone fun hs => hs.1 hh⟩

theorem terminator_of_shows (hop : t.op = .read) (hshows : t.Shows o) (hh : ¬ t.HandedOver)
    (hok : t.result = .ok ()) (hsize : o.size = o.buffer.bytes.length)
    (hzero : ∃ data, o.buffer.bytes? = some data ∧ o.buffer.terminated? = some (data ++ [0])) :
    ∃ data, t.buffer = some data ∧ t.terminated = some (data ++ [0]) ∧ t.size = data.length := by
  obtain ⟨data, hbytes, hzero⟩ := hzero
  have hbuf : t.outcome.buffer = o.buffer := hshows.buffer.resolve_right hh
  refine ⟨data, ?_, ?_, ?_⟩
  · unfold Ticket.buffer
    rw [show t.look.1.result = .ok () from hok, show t.look.1.buffer = o.buffer from hbuf]
    exact hbytes
  · rw [Ticket.terminated_of_read hop, hbuf]
    exact hzero
  · refine (hshows.size.trans hsize).trans ?_
    unfold WorkBuffer.bytes
    rw [hbytes]
    rfl

/-- What the handle shows of a read that has ended so. -/
theorem ReadTerminators.of_readEnd (h₀ : Unused p d₀) (h : Recorded p d₀ rs ts d)
    (he : ReadEnd p v ts id nullTerminate compressed o) (hop : t.op = .read) (hshows : t.Shows o) :
    ReadTerminators p v ts id nullTerminate compressed t := by
  by_cases hh : t.HandedOver
  · exact .of_handedOver hop hh
  have hresult : t.result = o.result := hshows.result
  have hbuf : t.outcome.buffer = o.buffer := hshows.buffer.resolve_right hh
  have hterm : t.terminated = o.buffer.terminated? := by
    rw [Ticket.terminated_of_read hop, hbuf]
  cases he with
  | empty hb hfail hno =>
    rw [← hresult] at hfail
    refine ⟨fun _ hok => absurd hok hfail, fun _ hok => absurd hok hfail, fun _ => iff_of_false ?_ ?_⟩
    · rw [hterm, hb]
      exact Bool.false_ne_true
    · rintro ⟨-, u, hu, hid, hstrands, -⟩
      exact hno u hu hid hstrands
  | @loaded u hu hid hplain hstrands hsize hexposes =>
    rw [← hresult] at hplain
    have hone : ∀ x ∈ ioTurns ts, x.work.id = id → x = u := fun x hx hidx =>
      h.eq_of_io h₀ hx hu (hidx.trans hid.symm)
    refine ⟨fun hnull hok _ => ?_, fun hnull hok => ?_, fun _ => ?_⟩
    · refine terminator_of_shows hop hshows hh hok hsize (hexposes.asked ?_)
      rw [hnull, hplain hok]
      rfl
    · rw [hterm, hexposes.isSome, hnull, hplain hok]
      constructor
      · rintro (hf | hlarge)
        · cases hf
        · exact ⟨hh, rfl, u, hu, hid, hlarge⟩
      · rintro ⟨-, -, x, hx, hidx, hlarge⟩
        obtain rfl := hone x hx hidx
        exact Or.inr hlarge
    · rw [hterm, hexposes.isSome]
      constructor
      · exact fun hroom => ⟨hh, u, hu, hid, hstrands, hroom⟩
      · rintro ⟨-, x, hx, hidx, -, hroom⟩
        obtain rfl := hone x hx hidx
        exact hroom
  | unpacked hok hcompressed hsize hexposes =>
    rw [← hresult] at hok
    refine ⟨fun hnull _ _ => terminator_of_shows hop hshows hh hok hsize (hexposes.asked hnull),
      fun hnull _ => ?_, fun hfail => absurd hok hfail⟩
    rw [hterm, hexposes.isSome, hnull, hcompressed]
    exact iff_of_false Bool.false_ne_true fun hs => Bool.false_ne_true hs.2.1.symm

/-- What handles show behind their bytes, over a backend that may tell any sizes but is honest otherwise, and
    whatever the codec and the heaps do. -/
theorem Recorded.terminators (h₀ : Fresh p d₀) (hb : p.backend.HonestButSizes v)
    (hs : v.sound d₀.backend) (h : Recorded p d₀ rs ts d) (hr : rs[id]? = some r)
    (ht : d.tickets[id]? = some t) (hd : t.isDone = true) : Terminators p v ts id r t := by
  have h₀ := h₀.unused
  have hop : t.op = r.op := h.run.ticket_op h₀.tickets ht hr
  obtain ⟨o, hshows, hlast⟩ := h.last_turn h₀ ht hd
  refine ⟨fun hw => Ticket.terminated_of_write (hop.trans hw), ?_⟩
  rintro path heap nullTerminate compressed rfl
  exact .of_readEnd h₀ h (h.read_end h₀ hb hs hr hlast) hop hshows

/-! ### Files that are said to be larger than they are -/

/-- A backend of files that hold one byte, are said to hold three, and cannot be written. -/
def boasting : Backend Unit Nat where
  translate := fun _ path => .ok path
  openFile := fun _ _ mode =>
    match mode with
    | .sharedRead => ⟨.ok 0, ()⟩
    | .createTruncate => ⟨Attempt.fail (.os 30), ()⟩
  querySize := fun _ i => ⟨.ok 3, ((), i)⟩
  read := fun _ i dst =>
    if i = 0 ∧ 0 < dst.size then ⟨⟨.ok 1, ((), 1)⟩, fun _ => 7⟩ else ⟨⟨.ok 0, ((), i)⟩, dst.byte⟩
  write := fun _ i _ => ⟨Attempt.fail (.os 30), ((), i)⟩
  close := fun _ _ => ⟨.ok (), ()⟩
  patience := fun _ => 0
  read_patience := fun _ _ _ h => by split at h <;> cases h
  write_patience := fun _ _ _ h => by cases h

/-- Its one file. -/
def oneByte : View Unit Nat Unit where
  sound _ := True
  file _ := ()
  contents _ _ := some [7]
  stands x _ i := x.2 = i ∧ i ≤ 1

/-- The byte is read once. -/
theorem reads_boasting {i : Nat} {data : List UInt8} (dst : Span) (hst : oneByte.stands ((), i) () i)
    (hc : oneByte.contents () () = some data) :
    oneByte.Reads () i data dst () (boasting.read () i dst) := by
  obtain rfl : [7] = data := Option.some.inj hc
  have hle : i ≤ 1 := hst.2
  by_cases hread : i = 0 ∧ 0 < dst.size
  · obtain ⟨rfl, hpos⟩ := hread
    rw [show boasting.read () 0 dst = ⟨⟨.ok 1, ((), 1)⟩, fun _ => 7⟩ from if_pos ⟨rfl, hpos⟩]
    refine ⟨rfl, ?_, (fun h => by cases h), fun f h => by cases h⟩
    rintro n ⟨⟩
    refine ⟨⟨rfl, Nat.le_refl 1⟩, hpos, Nat.le_refl 1, hpos, fun j hj => ?_⟩
    obtain rfl : j = 0 := by simpa using hj
    rfl
  · rw [show boasting.read () i dst = ⟨⟨.ok 0, ((), i)⟩, dst.byte⟩ from if_neg hread]
    refine ⟨rfl, ?_, fun _ => ?_, fun f h => by cases h⟩
    · rintro n ⟨⟩
      exact ⟨hst, Nat.zero_le _, hle, Span.starts_nil _⟩
    · show dst.size = 0 ∨ i = 1
      omega

theorem honest_boasting : boasting.HonestButSizes oneByte where
  others :=
    { openRead := fun _ _ => ⟨trivial, rfl, fun h hh => by cases hh; exact ⟨rfl, Nat.zero_le 1⟩⟩
      openWrite := fun _ _ => ⟨trivial, fun _ _ => rfl, (fun h hh => by cases hh), Or.inl rfl⟩
      standing := fun _ => ⟨trivial, _, rfl⟩
      size := fun hst _ => ⟨hst, rfl, fun n hn => by cases hn⟩
      read := fun dst hst hc => by
        obtain ⟨rfl, hle⟩ := hst
        exact reads_boasting dst ⟨rfl, hle⟩ hc
      write := fun _ hst hc =>
        ⟨fun _ _ => rfl, (fun n hn => by cases hn), fun _ _ => ⟨hst, hc⟩⟩
      close := fun _ => ⟨trivial, rfl⟩ }
  size hst := ⟨hst, rfl⟩

/-- A setup over these files, with a codec that is not asked. -/
def boastingSetup : Setup Unit Nat Unit := ⟨{}, Heaps.systemHeap, boasting, Codec.scripted {}⟩

/-- The I/O worker is about to read such a file. -/
theorem exists_boasted (nullTerminate : Bool) : ∃ d₀ d w, Fresh boastingSetup d₀ ∧
    Run boastingSetup d₀ [.read "f" 0 nullTerminate false] d ∧ d.heaps = .initial ∧
    d.tasks.get .io = .busy w ∧ w.id = 0 ∧ w.op = .read ∧ w.compressed = false ∧
    w.heap = Heaps.systemHeap := by
  let cues : List Cue :=
    [.submit (.read "f" 0 nullTerminate false), .act (.push 0), .act (.pop .io)]
  exact ⟨_, _, _, ⟨⟨⟨[], 1⟩, fun _ => none⟩, .initial, (), (), rfl⟩,
    run_of_replay (show replay boastingSetup cues _ = some _ from rfl), rfl, rfl, rfl, rfl, rfl, rfl⟩

/-- Reading such a file finds its one byte. -/
theorem readFull_boasting {buf : Span} (hbuf : buf.size = 3) :
    (boasting.readFull () 0 buf).result = .ok 1 := by
  have hread : boasting.ReadThrough oneByte () [7] buf () (boasting.readFull () 0 buf) :=
    honest_boasting.readFull buf ⟨rfl, Nat.zero_le 1⟩ rfl
  cases hr : (boasting.readFull () 0 buf).result with
  | ok n =>
    obtain ⟨hn, -⟩ := hread.full n hr
    rw [hbuf] at hn
    rw [hn]
    rfl
  | error e =>
    -- no call fails
    rcases hread.cause e hr with hbig | ⟨_, i, _, dst, -, -, hcall, -⟩
    · rw [hbuf] at hbig
      exact absurd hbig (by decide)
    · have hcall : (boasting.read () i dst).result = .error e := hcall
      unfold boasting at hcall
      dsimp only at hcall
      split at hcall <;> cases hcall

theorem processIo_boasting {w : Work} (hop : w.op = .read) (hc : w.compressed = false)
    (hheap : w.heap = Heaps.systemHeap) :
    (Stage.processIo boastingSetup .initial () w).result = .ok () := by
  have htarget : Stage.readTarget boastingSetup w 3 = (Heaps.systemHeap, 3 + w.extra) := by
    unfold Stage.readTarget Work.extra
    rw [hc, hheap]
    cases w.nullTerminate <;> rfl
  obtain ⟨b, hs, hnew, hsize, -⟩ : ∃ b hs, Heaps.initial.newBuffer Heaps.systemHeap (3 + w.extra)
      defaultAlignment = (.ok b, hs) ∧ b.storage.size = 3 + w.extra ∧ Heaps.Serves hs := by
    unfold Work.extra
    cases w.nullTerminate <;>
      exact Heaps.serves_initial.newBuffer (by decide) (by decide)
  have hbuf : (b.storage.take 3).size = 3 := by
    rw [Span.size_take, hsize]
    exact Nat.min_eq_left (Nat.le_add_right _ _)
  have hread : (boastingSetup.backend.readFull () 0 (b.storage.take 3)).result = .ok 1 :=
    readFull_boasting hbuf
  have hcontents : (Stage.readContents boastingSetup .initial w () 0).result = .ok () := by
    have hsized : boastingSetup.backend.querySize () 0 = ⟨.ok 3, ((), 0)⟩ := rfl
    obtain ⟨b', hb'⟩ := Stage.received_ok (w := w) (n := 1) (b := b.write (b.storage.overlay 0
      ⟨3, (boastingSetup.backend.readFull () 0 (b.storage.take 3)).written⟩).byte)
      (show 1 ≤ b.storage.size by omega)
    unfold Stage.readContents
    rw [hsized]
    dsimp only
    rw [htarget]
    dsimp only
    rw [show boastingSetup.config.bufferAlignment = defaultAlignment from rfl, hnew]
    dsimp only
    rw [hread]
    dsimp only
    rw [hb']
  have hclosed : (Stage.closing boastingSetup.backend
      (Stage.readContents boastingSetup .initial w () 0)).result = .ok () := by
    rcases Stage.closing_of_ok (b := boastingSetup.backend) hcontents with ⟨c, hcrash, -⟩ | ⟨-, hok⟩
    · cases hcrash
    · exact hok
  unfold Stage.processIo
  rw [hop]
  exact hclosed

/-- A read of such a file that has just ended. -/
theorem exists_exposed (nullTerminate : Bool) : ∃ d₀ d ts t, Fresh boastingSetup d₀ ∧
    Recorded boastingSetup d₀ [.read "f" 0 nullTerminate false] ts d ∧ d.tickets[0]? = some t ∧
    t.isDone = true ∧ ¬ t.HandedOver ∧ t.result = .ok () ∧ t.terminated.isSome = true := by
  obtain ⟨d₀, d₁, w, hfresh, hrun, hheaps, hw, hid, hop, hc, hheap⟩ := exists_boasted nullTerminate
  obtain ⟨ts, hts⟩ := hrun.recorded
  have hok := processIo_boasting hop hc hheap
  rw [← hheaps] at hok
  let last : Turn Unit Unit := ⟨d₁, .io, w⟩
  have hresult : last.result boastingSetup = .ok () := hok
  have hready : last.readied boastingSetup = false := by
    by_contra hne
    rcases Turn.op_of_readied (eq_true_of_ne_false hne) with ⟨-, -, hcomp⟩ | ⟨hs, -⟩
    · cases hc.symm.trans hcomp
    · cases hs
  -- what it has loaded leaves room behind it
  have hexposed : (last.after boastingSetup).buffer.terminated?.isSome = true := by
    have hlarge : TooLarge boastingSetup oneByte d₁.backend w :=
      ⟨w.path.text, 0, 3, [7], rfl, rfl, rfl, rfl, by decide⟩
    rcases Stage.processIo_read_cases boastingSetup d₁.heaps d₁.backend hop with
      ⟨-, size, n, hl⟩ | ⟨-, ⟨c, hcrash⟩, -⟩ | ⟨-, ⟨f, hf⟩, -⟩
    · exact (hl.exposes honest_boasting trivial).isSome.mpr (Or.inr hlarge)
    · cases hok.symm.trans hcrash
    · cases hok.symm.trans hf
  obtain ⟨d, hstep⟩ : ∃ d, d₁.step boastingSetup (.process .io) = some d := ⟨_, process_busy hw⟩
  obtain ⟨t, hcons, hp, ht, hend⟩ :=
    published_of_turn (hrun.balanced hfresh.unused.inBalance) hw hstep hready
  have hout := hcons.outcome_publish hp ((last.after boastingSetup).outcome (last.verdict boastingSetup))
  rw [hid] at ht hend
  have hread : t.op = .read := hrun.ticket_op hfresh.unused.tickets ht rfl
  refine ⟨d₀, d, _, _, hfresh, hts.turn hw hstep, hend, ?_, ?_, ?_, ?_⟩
  · rw [hcons.publish_of_pending hp]
    rfl
  · rintro ⟨o, hseen, -⟩
    rw [hcons.publish_of_pending hp] at hseen
    cases hseen.symm.trans (hcons.seen_of_pending hp)
  · show (t.publish _).outcome.result = _
    rw [hout]
    exact Turn.verdict_eq_ok.mpr hresult
  · rw [Ticket.terminated_of_read (show (t.publish _).op = .read from hread), hout]
    exact hexposed

/-- A read that has succeeded shows a byte more than it has got, which nobody asked for. -/
theorem terminated_unasked : ∃ d₀ d ts t, Fresh boastingSetup d₀ ∧
    boasting.HonestButSizes oneByte ∧ oneByte.sound d₀.backend ∧
    Recorded boastingSetup d₀ [.read "f" 0 false false] ts d ∧ d.tickets[0]? = some t ∧
    t.isDone = true ∧ ¬ t.HandedOver ∧ t.result = .ok () ∧ t.terminated.isSome = true := by
  obtain ⟨d₀, d, ts, t, hfresh, hrest⟩ := exists_exposed false
  exact ⟨d₀, d, ts, t, hfresh, honest_boasting, trivial, hrest⟩

/-- If it was asked for, it is a terminator. -/
theorem terminators_of_boasting : ∃ d₀ d ts t data, Fresh boastingSetup d₀ ∧
    boastingSetup.backend.HonestButSizes oneByte ∧ oneByte.sound d₀.backend ∧
    Recorded boastingSetup d₀ [.read "f" 0 true false] ts d ∧ d.tickets[0]? = some t ∧
    t.isDone = true ∧ Terminators boastingSetup oneByte ts 0 (.read "f" 0 true false) t ∧
    t.terminated = some (data ++ [0]) := by
  obtain ⟨d₀, d, ts, t, hfresh, hrec, ht, hd, hh, hok, -⟩ := exists_exposed true
  have hb : boastingSetup.backend.HonestButSizes oneByte := honest_boasting
  have hs : oneByte.sound d₀.backend := trivial
  have hall := hrec.terminators hfresh hb hs rfl ht hd
  obtain ⟨data, -, hzero, -⟩ := (hall.read _ _ _ _ rfl).asked rfl hok hh
  exact ⟨d₀, d, ts, t, data, hfresh, hb, hs, hrec, ht, hd, hall, hzero⟩

end Dispatcher

end FilePipeline
