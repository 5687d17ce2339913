import FilePipeline.Proofs.Dispatcher.LastTurns
import FilePipeline.Proofs.Stage.Sizes
import Mathlib.Algebra.BigOperators.Group.List.Basic

/-! # What sizes tell

The size that a ticket shows is at least the number of bytes that the work has moved (`Tally`): those
that the backend has taken for a write (`bytesAccepted`), or those that a read gives to the submitter. It
is that number if the work has succeeded. If not, a write shows the length of what it was to write, and a
read that of what it had loaded (`bytesLoaded`), whatever became of it: so the size of failed work is too
large, but for work without any bytes and for a write whose worker crashed after everything was taken
(`Recorded.size_tally`). -/

namespace FilePipeline.Dispatcher

open Backend (Honest)

variable {σ η κ ν : Type} {p : Setup σ η κ} {v : View σ η ν} {d d₀ : Dispatcher σ κ}
  {rs : List Submission} {ts : List (Turn σ κ)} {id : WorkId} {r : Submission} {o : Outcome}

/-! ### Sums over the I/O turns of a piece of work -/

/-- The sum of `f` over the I/O turns of the work with a number. -/
def ioSum (f : Turn σ κ → Nat) (ts : List (Turn σ κ)) (id : WorkId) : Nat :=
  (((ioTurns ts).filter (·.work.id = id)).map f).sum

theorem ioSum_of_none {f : Turn σ κ → Nat} (h : ∀ u ∈ ioTurns ts, u.work.id ≠ id) :
    ioSum f ts id = 0 := by
  have hnil : (ioTurns ts).filter (·.work.id = id) = [] :=
    List.filter_eq_nil_iff.mpr fun u hu => by simpa using h u hu
  unfold ioSum
  rw [hnil]
  rfl

/-- There is at most one such turn. -/
theorem Recorded.ioSum_of_turn (h₀ : Unused p d₀) (h : Recorded p d₀ rs ts d) (f : Turn σ κ → Nat)
    {u : Turn σ κ} (hu : u ∈ ts) (hio : u.stage = .io) : ioSum f ts u.work.id = f u := by
  have honce := h.io_once h₀
  obtain ⟨us, us', hus⟩ := List.append_of_mem (mem_ioTurns.mpr ⟨hu, hio⟩)
  rw [hus, List.map_append, List.map_cons, List.nodup_middle, List.nodup_cons] at honce
  have hother : ∀ x ∈ us ++ us', x.work.id ≠ u.work.id := by
    intro x hx he
    refine honce.1 ?_
    rw [← List.map_append, ← he]
    exact List.mem_map_of_mem hx
  have hnil : ∀ l : List (Turn σ κ), l ⊆ us ++ us' → l.filter (·.work.id = u.work.id) = [] :=
    fun l hl => List.filter_eq_nil_iff.mpr fun x hx => by simpa using hother x (hl hx)
  unfold ioSum
  rw [hus, List.filter_append, List.filter_cons_of_pos (by simp),
    hnil us (List.subset_append_left _ _), hnil us' (List.subset_append_right _ _)]
  exact List.sum_singleton

/-- How many bytes the backend has taken for the write with a number. -/
def bytesAccepted (p : Setup σ η κ) (ts : List (Turn σ κ)) (id : WorkId) : Nat :=
  ioSum (fun u => Stage.accepted p u.before.backend u.work) ts id

theorem bytesAccepted_of_unopened
    (h : ∀ u ∈ ioTurns ts, u.work.id = id → ¬ Stage.Opens p u.before.backend u.work) :
    bytesAccepted p ts id = 0 := by
  refine List.sum_eq_zero fun n hn => ?_
  obtain ⟨u, hu, rfl⟩ := List.mem_map.mp hn
  obtain ⟨hu, hid⟩ := List.mem_filter.mp hu
  exact Stage.accepted_of_not_opened (h u hu (of_decide_eq_true hid))

/-- How many bytes of its file the read with a number has loaded. -/
def bytesLoaded (p : Setup σ η κ) (ts : List (Turn σ κ)) (id : WorkId) : Nat :=
  ioSum (fun u => (u.after p).buffer.bytes.length) ts id

theorem Recorded.bytesLoaded_of_turn (h₀ : Unused p d₀) (h : Recorded p d₀ rs ts d) {u : Turn σ κ}
    (hu : u ∈ ts) (hio : u.stage = .io) :
    bytesLoaded p ts u.work.id = (u.after p).buffer.bytes.length := h.ioSum_of_turn h₀ _ hu hio

theorem Recorded.bytesAccepted_of_turn (h₀ : Unused p d₀) (h : Recorded p d₀ rs ts d) {u : Turn σ κ}
    (hu : u ∈ ts) (hio : u.stage = .io) :
    bytesAccepted p ts u.work.id = Stage.accepted p u.before.backend u.work :=
  h.ioSum_of_turn h₀ _ hu hio

/-! ### Measured work -/

theorem Turn.measured_after {u : Turn σ κ} (hb : p.backend.Honest v) (hs : v.sound u.before.backend)
    (hw : u.work.Measured)
    (hok : u.stage = .compression → u.work.op = .read → u.result p = .ok ()) :
    (u.after p).Measured := by
  obtain ⟨d₁, s, w⟩ := u
  cases s with
  | io => exact Stage.measured_processIo d₁.heaps hb hs hw
  | compression => exact Stage.measured_processCompression p d₁.heaps d₁.codec hw (hok rfl)

theorem Recorded.measured (h₀ : Unused p d₀) (hb : p.backend.Honest v) (hs : v.sound d₀.backend)
    (h : Recorded p d₀ rs ts d) {u : Turn σ κ} (hu : u ∈ ts) : u.work.Measured := by
  have submitted : ∀ {s : Stage} {w : Work}, AsSubmitted p rs s w → w.Measured := by
    rintro s w ⟨r, path, -, -, -, hw⟩
    rw [hw]
    exact Work.measured_ofSubmission w.id p.ownHeap r
  rcases h.origin h₀ hu with ho | ⟨t, ht, hon, ho⟩
  · exact submitted ho
  · rw [hon.work]
    exact Turn.measured_after hb (h.sound_at hb hs ht) (submitted ho) fun _ _ =>
      (Turn.readied_iff.mp hon.readied).1

/-! ### Reads -/

/-- What the outcome of a read tells of its bytes. -/
structure ReadTally (p : Setup σ η κ) (ts : List (Turn σ κ)) (id : WorkId) (o : Outcome) : Prop where
  /-- The size is the length of the buffer if the read has succeeded, -/
  full : o.result = .ok () → o.size = o.buffer.bytes.length
  /-- and else of what it had loaded. -/
  loaded : o.result ≠ .ok () → o.size = bytesLoaded p ts id

section

variable (h₀ : Unused p d₀) (hb : p.backend.Honest v) (hs : v.sound d₀.backend)
  (h : Recorded p d₀ rs ts d) {u : Turn σ κ} (hu : u ∈ ts) (hid : u.work.id = id)

include h₀ hb hs h hu hid

theorem ReadTally.of_io (hio : u.stage = .io) (x : Except WorkError Unit) :
    ReadTally p ts id ((u.after p).outcome x) := by
  have hmeasured : (u.after p).Measured :=
    Turn.measured_after hb (h.sound_at hb hs hu) (h.measured h₀ hb hs hu) fun hc => by
      cases hio.symm.trans hc
  subst hid
  exact ⟨fun _ => hmeasured, fun _ => hmeasured.trans (h.bytesLoaded_of_turn h₀ hu hio).symm⟩

/-- A read that ends in the compression stage. If it fails, it is left with the size of what the I/O stage
    has handed on. -/
theorem ReadTally.of_compression (hc : u.stage = .compression) (hop : u.work.op = .read) :
    ReadTally p ts id ((u.after p).outcome (u.verdict p)) := by
  have hmeasured := h.measured h₀ hb hs hu
  refine ⟨fun hok => ?_, fun hfail => ?_⟩
  · exact Turn.measured_after hb (h.sound_at hb hs hu) hmeasured fun _ _ => Turn.verdict_eq_ok.mp hok
  · obtain ⟨t, ht, hon⟩ := h.handed_by_io h₀ hu hc hop
    obtain ⟨ht, hio⟩ := mem_ioTurns.mp ht
    have hloaded := h.bytesLoaded_of_turn h₀ ht hio
    rw [← hon.sameAs.id, hid, ← hon.work] at hloaded
    have hkept : u.after p = { u.work with buffer := .none } := by
      have hres : u.result p ≠ .ok () := fun hok => hfail (Turn.verdict_eq_ok.mpr hok)
      obtain ⟨d₁, s, w⟩ := u
      obtain rfl : s = .compression := hc
      exact Stage.work_of_failed_decompress hop hres
    show (u.after p).size = _
    rw [hkept, hloaded]
    exact hmeasured

end

theorem Recorded.read_tally (h₀ : Unused p d₀) (hb : p.backend.Honest v) (hs : v.sound d₀.backend)
    (h : Recorded p d₀ rs ts d) (hr : rs[id]? = some r) (hop : r.op = .read)
    (hlast : LastTurn p rs ts id o) : ReadTally p ts id o := by
  have opOf : ∀ {u : Turn σ κ}, u ∈ ts → u.work.id = id → u.work.op = .read := by
    rintro u hu rfl
    exact ((h.origin h₀ hu).of_submission hr).op.trans hop
  cases hlast with
  | @none r' e hr' hno =>
    obtain rfl := Option.some.inj (hr.symm.trans hr')
    refine ⟨(fun hok => by cases hok), fun _ => ?_⟩
    have hzero : bytesLoaded p ts id = 0 := ioSum_of_none fun u hu => hno u (mem_ioTurns.mp hu).1
    rw [hzero]
    cases r with
    | read => rfl
    | write => cases hop
  | @ended u hu hid _ =>
    cases hstage : u.stage with
    | io => exact .of_io h₀ hb hs h hu hid hstage _
    | compression => exact .of_compression h₀ hb hs h hu hid hstage (opOf hu hid)
  | @dropped u hu hid hready _ =>
    exact .of_io h₀ hb hs h hu hid (Turn.io_of_readied hready (opOf hu hid)).1 _

/-! ### Writes -/

/-- What the outcome of a write tells of its bytes, if it was to write `data`. -/
structure WriteTally (p : Setup σ η κ) (ts : List (Turn σ κ)) (id : WorkId) (data : List UInt8)
    (compressed : Bool) (o : Outcome) : Prop where
  /-- The size is the length of what was to be written: -/
  size : o.size = o.buffer.bytes.length
  /-- the payload, or the frame that the compression stage has made of it. -/
  source : o.buffer = .caller data ∨ compressed = true ∧ ∃ c ∈ ts, c.stage = .compression ∧
    c.work.id = id ∧ c.result p = .ok () ∧ o.buffer = (c.after p).buffer
  /-- The backend has taken no more than that, -/
  le : bytesAccepted p ts id ≤ o.size
  /-- all of it if the write has succeeded, -/
  full : o.result = .ok () → bytesAccepted p ts id = o.size
  /-- and if it has failed only if that is nothing, or the worker crashed then. -/
  short : o.result ≠ .ok () → bytesAccepted p ts id = o.size → o.size = 0 ∨
    ∃ u ∈ ioTurns ts, u.work.id = id ∧ u.crashed p = true

theorem AsSubmitted.compressed_of_write {w : Work} {path : String} {data : List UInt8}
    {compressed : Bool} (h : AsSubmitted p rs .compression w)
    (hr : rs[w.id]? = some (.write path data compressed)) : compressed = true := by
  have hfirst := h.firstStage hr
  cases compressed with
  | false => cases hfirst
  | true => rfl

theorem Recorded.source_of_write (h₀ : Unused p d₀) (h : Recorded p d₀ rs ts d) {path : String}
    {data : List UInt8} {compressed : Bool} {u : Turn σ κ} (hu : u ∈ ts)
    (hr : rs[u.work.id]? = some (.write path data compressed)) :
    u.work.buffer = .caller data ∨ compressed = true ∧ ∃ c ∈ ts, c.stage = .compression ∧
      c.work.id = u.work.id ∧ c.result p = .ok () ∧ u.work.buffer = (c.after p).buffer := by
  rcases h.origin h₀ hu with ho | ⟨c, hc, hon, ho⟩
  · exact Or.inl (ho.payload hr)
  · have hr' : rs[c.work.id]? = some (.write path data compressed) := by
      rw [← hon.sameAs.id]
      exact hr
    have hstage := Turn.compression_of_readied hon.readied ((h.origin h₀ hc).of_submission hr').op
    rw [hstage] at ho
    exact Or.inr ⟨ho.compressed_of_write hr', c, hc, hstage, hon.sameAs.id.symm,
      (Turn.readied_iff.mp hon.readied).1, by rw [hon.work]⟩

/-- A write that ends in a turn still holds what it came with, and has failed if that was one of the
    compression stage. -/
theorem Turn.kept_of_write {u : Turn σ κ} (hop : u.work.op = .write) (hready : u.readied p = false) :
    (u.after p).buffer = u.work.buffer ∧ (u.stage = .compression → u.result p ≠ .ok ()) := by
  have hafter : (u.after p).op = .write := (u.after_sameAs p).op.trans hop
  have hfailed : u.stage = .compression → u.result p ≠ .ok () := by
    intro hstage hok
    have hon : u.readied p = true := by
      rw [Turn.readied_iff, hstage]
      exact ⟨hok, by unfold handsOn; rw [hafter]; rfl⟩
    cases hready.symm.trans hon
  refine ⟨?_, hfailed⟩
  obtain ⟨d₁, s, w⟩ := u
  have hop : w.op = .write := hop
  cases s with
  | io => exact Stage.buffer_processIo_write p d₁.heaps d₁.backend hop
  | compression =>
    have hfailed : (Stage.processCompression p d₁.heaps d₁.codec w).result ≠ .ok () := hfailed rfl
    show (Stage.processCompression p d₁.heaps d₁.codec w).work.buffer = w.buffer
    rw [Stage.processCompression_write p d₁.heaps d₁.codec hop] at hfailed ⊢
    rcases Stage.compress_cases p d₁.heaps d₁.codec w with ⟨hok, -⟩ | ⟨-, hw⟩
    · exact absurd hok hfailed
    · rw [hw]

/-- What the backend has taken in the I/O turn of a write. -/
theorem Turn.accepts {u : Turn σ κ} (hb : p.backend.Honest v) (hs : v.sound u.before.backend)
    (hio : u.stage = .io) (hop : u.work.op = .write) :
    Stage.accepted p u.before.backend u.work ≤ u.work.buffer.bytes.length ∧
      (u.result p = .ok () →
        Stage.accepted p u.before.backend u.work = u.work.buffer.bytes.length) ∧
      (u.result p ≠ .ok () → u.crashed p = false →
        Stage.accepted p u.before.backend u.work = u.work.buffer.bytes.length →
        u.work.buffer.bytes.length = 0) := by
  obtain ⟨d₁, s, w⟩ := u
  obtain rfl : s = .io := hio
  have hspec := Stage.accepted_spec d₁.heaps hb hs hop
  have hresult : Turn.result p ⟨d₁, .io, w⟩ = (Stage.processIo p d₁.heaps d₁.backend w).result := rfl
  refine ⟨hspec.le, hspec.full, fun hfail hcalm hall => ?_⟩
  unfold Turn.crashed at hcalm
  rw [hresult] at hfail hcalm
  rcases hr : (Stage.processIo p d₁.heaps d₁.backend w).result with (e | c) | ⟨⟩
  · rcases hspec.short e hr with hzero | hlt
    · exact hall.symm.trans hzero
    · exact absurd hall (Nat.ne_of_lt hlt)
  · rw [hr] at hcalm
    cases hcalm
  · exact absurd hr hfail

theorem WriteTally.of_untaken {data : List UInt8} {compressed : Bool}
    (hsize : o.size = o.buffer.bytes.length)
    (hsource : o.buffer = .caller data ∨ compressed = true ∧ ∃ c ∈ ts, c.stage = .compression ∧
      c.work.id = id ∧ c.result p = .ok () ∧ o.buffer = (c.after p).buffer)
    (hno : ∀ u ∈ ioTurns ts, u.work.id ≠ id) (hfail : o.result ≠ .ok ()) :
    WriteTally p ts id data compressed o := by
  have hzero : bytesAccepted p ts id = 0 := ioSum_of_none hno
  exact ⟨hsize, hsource, by omega, fun hok => absurd hok hfail, fun _ hall => Or.inl (by omega)⟩

section

variable {path : String} {data : List UInt8} {compressed : Bool} (h₀ : Unused p d₀)
  (hb : p.backend.Honest v) (hs : v.sound d₀.backend) (h : Recorded p d₀ rs ts d)
  (hr : rs[id]? = some (.write path data compressed)) {u : Turn σ κ} (hu : u ∈ ts)
  (hid : u.work.id = id)

include h₀ h hr hu hid

theorem Recorded.op_of_write : u.work.op = .write := by
  subst hid
  exact ((h.origin h₀ hu).of_submission hr).op

include hb hs

theorem Recorded.measured_of_write : (u.after p).Measured :=
  Turn.measured_after hb (h.sound_at hb hs hu) (h.measured h₀ hb hs hu) fun _ hop => by
    cases hop.symm.trans (h.op_of_write h₀ hr hu hid)

theorem WriteTally.of_io (hready : u.readied p = false) (hio : u.stage = .io) :
    WriteTally p ts id data compressed ((u.after p).outcome (u.verdict p)) := by
  have hop := h.op_of_write h₀ hr hu hid
  have hsize := h.measured_of_write h₀ hb hs hr hu hid
  have hkept := (Turn.kept_of_write hop hready).1
  have hsource := h.source_of_write h₀ hu (by rw [hid]; exact hr)
  rw [← hkept, hid] at hsource
  obtain ⟨hle, hfull, hshort⟩ := Turn.accepts hb (h.sound_at hb hs hu) hio hop
  have hlen : (u.after p).size = u.work.buffer.bytes.length := hsize.trans (by rw [hkept])
  rw [← h.bytesAccepted_of_turn h₀ hu hio, hid, ← hlen] at hle hfull hshort
  refine ⟨hsize, hsource, hle, fun hok => hfull (Turn.verdict_eq_ok.mp hok), fun hfail hall => ?_⟩
  by_cases hc : u.crashed p = true
  · exact Or.inr ⟨u, mem_ioTurns.mpr ⟨hu, hio⟩, hid, hc⟩
  · have hres : u.result p ≠ .ok () := fun hok => hfail (Turn.verdict_eq_ok.mpr hok)
    exact Or.inl (hshort hres (eq_false_of_ne_true hc) hall)

theorem WriteTally.of_compression (hready : u.readied p = false) (hc : u.stage = .compression) :
    WriteTally p ts id data compressed ((u.after p).outcome (u.verdict p)) := by
  obtain ⟨hkept, hfailed⟩ := Turn.kept_of_write (h.op_of_write h₀ hr hu hid) hready
  have hsource := h.source_of_write h₀ hu (by rw [hid]; exact hr)
  rw [← hkept, hid] at hsource
  refine .of_untaken (h.measured_of_write h₀ hb hs hr hu hid) hsource ?_ ?_
  · intro t ht hidt
    obtain ⟨ht, hio⟩ := mem_ioTurns.mp ht
    rcases h.before_last h₀ ht hu (hidt.trans hid.symm) hready with rfl | hon
    · cases hio.symm.trans hc
    · cases hio.symm.trans
        (Turn.compression_of_readied hon.readied (h.op_of_write h₀ hr ht hidt))
  · exact fun hok => hfailed hc (Turn.verdict_eq_ok.mp hok)

theorem WriteTally.of_dropped (hready : u.readied p = true)
    (honly : ∀ t ∈ ts, t.work.id = id → t = u) :
    WriteTally p ts id data compressed ((u.after p).outcome (.error .abandoned)) := by
  have hc := Turn.compression_of_readied hready (h.op_of_write h₀ hr hu hid)
  have ho := (h.origin h₀ hu).of_readied hready
  rw [hc] at ho
  refine .of_untaken (h.measured_of_write h₀ hb hs hr hu hid) ?_ ?_ (fun hok => by cases hok)
  · exact Or.inr ⟨ho.compressed_of_write (by rw [hid]; exact hr), u, hu, hc, hid,
      (Turn.readied_iff.mp hready).1, rfl⟩
  · intro t ht hidt
    obtain ⟨ht, hio⟩ := mem_ioTurns.mp ht
    rw [honly t ht hidt] at hio
    cases hio.symm.trans hc

end

theorem Recorded.write_tally (h₀ : Unused p d₀) (hb : p.backend.Honest v) (hs : v.sound d₀.backend)
    (h : Recorded p d₀ rs ts d) {path : String} {data : List UInt8} {compressed : Bool}
    (hr : rs[id]? = some (.write path data compressed)) (hlast : LastTurn p rs ts id o) :
    WriteTally p ts id data compressed o := by
  cases hlast with
  | @none r e hr' hno =>
    obtain rfl := Option.some.inj (hr.symm.trans hr')
    exact .of_untaken rfl (Or.inl rfl) (fun u hu => hno u (mem_ioTurns.mp hu).1) fun hok => by cases hok
  | @ended u hu hid hready =>
    cases hstage : u.stage with
    | io => exact .of_io h₀ hb hs h hr hu hid hready hstage
    | compression => exact .of_compression h₀ hb hs h hr hu hid hready hstage
  | dropped hu hid hready honly => exact .of_dropped h₀ hb hs h hr hu hid hready honly

/-! ### All work -/

/-- How many bytes the work with a number has moved that was to do `op` and has ended with the outcome
    `o`: what the backend has taken, or what is given to the submitter. -/
def bytesMoved (p : Setup σ η κ) (ts : List (Turn σ κ)) (id : WorkId) (op : Op) (o : Outcome) : Nat :=
  match op, o.result with
  | .write, _ => bytesAccepted p ts id
  | .read, .ok () => o.buffer.bytes.length
  | .read, .error _ => 0

/-- What the size of work that was submitted as `r` and has ended with the outcome `o` tells. -/
structure Tally (p : Setup σ η κ) (ts : List (Turn σ κ)) (id : WorkId) (r : Submission)
    (o : Outcome) : Prop where
  /-- It is never too small, -/
  least : bytesMoved p ts id r.op o ≤ o.size
  /-- and as large as it should be if the work has succeeded. -/
  full : o.result = .ok () → o.size = bytesMoved p ts id r.op o
  /-- Failed work keeps the size of what it was working on: a read that of what it had loaded, -/
  read : r.op = .read → o.result ≠ .ok () → o.size = bytesLoaded p ts id
  /-- and a write that of what was to be written. -/
  write : ∀ path data compressed, r = .write path data compressed →
    WriteTally p ts id data compressed o
  /-- So it is not too large exactly if the work has succeeded, or that is nothing, or the worker crashed
      when the backend had taken all of a write. -/
  fits : o.size ≤ bytesMoved p ts id r.op o ↔ o.result = .ok () ∨ o.size = 0 ∨
    r.op = .write ∧ bytesAccepted p ts id = o.size ∧
      ∃ u ∈ ioTurns ts, u.work.id = id ∧ u.crashed p = true

/-- The size that a ticket shows when its work has ended, over an honest backend and whatever the codec and
    the heaps do. -/
theorem Recorded.size_tally (h₀ : Fresh p d₀) (hb : p.backend.Honest v) (hs : v.sound d₀.backend)
    (h : Recorded p d₀ rs ts d) (hr : rs[id]? = some r) {t : Ticket} (ht : d.tickets[id]? = some t)
    (hd : t.isDone = true) : ∃ o, t.Shows o ∧ Tally p ts id r o := by
  have h₀ := h₀.unused
  obtain ⟨o, hshows, hlast⟩ := h.last_turn h₀ ht hd
  refine ⟨o, hshows, ?_⟩
  cases r with
  | read path heap nullTerminate compressed =>
    obtain ⟨hok, hfail⟩ := h.read_tally h₀ hb hs hr rfl hlast
    have hmoved : (o.result = .ok () → bytesMoved p ts id .read o = o.size) ∧
        (o.result ≠ .ok () → bytesMoved p ts id .read o = 0) := by
      unfold bytesMoved
      rcases hres : o.result with e | ⟨⟩
      · exact ⟨(fun hr => by cases hr), fun _ => rfl⟩
      · exact ⟨fun _ => (hok hres).symm, fun hr => absurd rfl hr⟩
    obtain ⟨hmoved, hnone⟩ := hmoved
    by_cases hres : o.result = .ok ()
    · have hmoved := hmoved hres
      exact ⟨Nat.le_of_eq hmoved, fun _ => hmoved.symm, fun _ hr => absurd hres hr,
        (fun _ _ _ he => by cases he), fun _ => Or.inl hres, fun _ => Nat.le_of_eq hmoved.symm⟩
    · have hzero : bytesMoved p ts id (Submission.op (.read path heap nullTerminate compressed)) o = 0 :=
        hnone hres
      refine ⟨by omega, fun hr => absurd hr hres, fun _ => hfail, (fun _ _ _ he => by cases he),
        fun hle => Or.inr (Or.inl (by omega)), ?_⟩
      rintro (hr | hsize | ⟨hop, -⟩)
      · exact absurd hr hres
      · omega
      · cases hop
  | write path data compressed =>
    have hw := h.write_tally h₀ hb hs hr hlast
    have hmoved : bytesMoved p ts id (Submission.op (.write path data compressed)) o =
        bytesAccepted p ts id := rfl
    refine ⟨hw.le, fun hr => (hw.full hr).symm, (fun hop => by cases hop), ?_, fun hle => ?_, ?_⟩
    · rintro _ _ _ ⟨⟩
      exact hw
    · have hall : bytesAccepted p ts id = o.size := Nat.le_antisymm hw.le hle
      by_cases hres : o.result = .ok ()
      · exact Or.inl hres
      · rcases hw.short hres hall with hzero | hcrash
        · exact Or.inr (Or.inl hzero)
        · exact Or.inr (Or.inr ⟨rfl, hall, hcrash⟩)
    · rw [hmoved]
      rintro (hr | hsize | ⟨-, hall, -⟩)
      · exact Nat.le_of_eq (hw.full hr).symm
      · omega
      · exact Nat.le_of_eq hall.symm

/-! ### A write that has nothing of its file -/

open Backend.Scripted (viewOf Faults.Truthful kind_truthful honest_viewOf)

/-- A write of one byte to the empty path, up to its end. -/
def pathlessCues : List Cue :=
  [.submit (.write "" [1] false), .act (.push 0), .act (.pop .io), .act (.process .io)]

theorem exists_pathless_write : ∃ d₀ d ts t, Fresh (scriptedSetup 1 {}) d₀ ∧
    (viewOf Faults.Truthful).sound d₀.backend ∧
    Recorded (scriptedSetup 1 {}) d₀ [.write "" [1] false] ts d ∧ d.tickets[0]? = some t ∧
    t.isDone = true ∧ t.size = 1 := by
  have h : ((scripted? 1 {} {}).bind fun d₀ => replay (scriptedSetup 1 {}) pathlessCues d₀).any
      (fun d => (d.done? 0).any fun t => t.size = 1) = true := by
    decide +kernel
  obtain ⟨d₀, h₀, hb₀⟩ : ∃ d₀, scripted? 1 {} {} = some d₀ ∧ d₀.backend = {} := ⟨_, rfl, rfl⟩
  obtain ⟨d, hr, ht⟩ := Option.any_eq_true _ _ |>.mp h
  obtain ⟨t, ht, hsize⟩ := Option.any_eq_true _ _ |>.mp ht
  obtain ⟨ht, hd⟩ := done?_eq_some ht
  rw [h₀] at hr
  have hr : replay (scriptedSetup 1 {}) pathlessCues d₀ = some d := hr
  obtain ⟨ts, hrec⟩ := (run_of_replay hr).recorded
  refine ⟨d₀, d, ts, t, fresh_scripted h₀, ?_, hrec, ht, hd, of_decide_eq_true hsize⟩
  rw [hb₀]
  exact fun _ => ⟨(fun n h => by cases h), (fun m h => by cases h), fun m h => by cases h⟩

/-- The size of this write is one too large: its file was not opened. -/
theorem size_of_pathless_write : ∃ d₀ d ts t, Fresh (scriptedSetup 1 {}) d₀ ∧
    (scriptedSetup 1 {}).backend.Honest (viewOf Faults.Truthful) ∧
    (viewOf Faults.Truthful).sound d₀.backend ∧
    Recorded (scriptedSetup 1 {}) d₀ [.write "" [1] false] ts d ∧ d.tickets[0]? = some t ∧
    t.isDone = true ∧ (∀ u ∈ ioTurns ts, ¬ Stage.Opens (scriptedSetup 1 {}) u.before.backend u.work) ∧
    bytesAccepted (scriptedSetup 1 {}) ts 0 = 0 ∧ t.size = 1 := by
  obtain ⟨d₀, d, ts, t, hfresh, hs, hrec, ht, hd, hsize⟩ := exists_pathless_write
  have hno : ∀ u ∈ ioTurns ts, ¬ Stage.Opens (scriptedSetup 1 {}) u.before.backend u.work := by
    rintro u hu ⟨s', h, native, htr, -⟩
    obtain ⟨r, hr, ha⟩ := (hrec.origin hfresh.unused (mem_ioTurns.mp hu).1).asked
    obtain rfl := List.mem_singleton.mp (List.mem_of_getElem? hr)
    rw [ha.text] at htr
    cases htr
  exact ⟨d₀, d, ts, t, hfresh, honest_viewOf kind_truthful, hs, hrec, ht, hd, hno,
    bytesAccepted_of_unopened fun u hu _ => hno u hu, hsize⟩

/-- So it is told apart from what was moved. -/
theorem size_tally_of_pathless_write : ∃ d₀ d ts t o, Fresh (scriptedSetup 1 {}) d₀ ∧
    (scriptedSetup 1 {}).backend.Honest (viewOf Faults.Truthful) ∧
    (viewOf Faults.Truthful).sound d₀.backend ∧
    Recorded (scriptedSetup 1 {}) d₀ [.write "" [1] false] ts d ∧ d.tickets[0]? = some t ∧
    t.isDone = true ∧ t.Shows o ∧ Tally (scriptedSetup 1 {}) ts 0 (.write "" [1] false) o := by
  obtain ⟨d₀, d, ts, t, hfresh, hs, hrec, ht, hd, -⟩ := exists_pathless_write
  have hb : (scriptedSetup 1 {}).backend.Honest (viewOf Faults.Truthful) := honest_viewOf kind_truthful
  obtain ⟨o, hshows, htally⟩ := hrec.size_tally hfresh hb hs rfl ht hd
  exact ⟨d₀, d, ts, t, o, hfresh, hb, hs, hrec, ht, hd, hshows, htally⟩

end FilePipeline.Dispatcher
