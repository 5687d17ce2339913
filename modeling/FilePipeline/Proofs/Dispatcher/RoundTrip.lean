import FilePipeline.Proofs.Dispatcher.Alone
import FilePipeline.Proofs.Frame.RoundTrip
import FilePipeline.Proofs.Heap.Serving

/-! # What is written is read back

With the LZ4 codec, a write to a reliable file succeeds, and a read of that file that follows it gets
what was written (`Alone.round_trip`), whatever else is in flight on other files. The two halves meet at
the bytes in the file (`stored`): each turn of the write goes well and in the end they are there
(`Alone.write_ok`, `Alone.write_shows`); each turn of the read goes well since they are what it finds
(`Alone.read_ok`, `Alone.read_shows`). -/

namespace FilePipeline.Dispatcher

open Backend (Honest Reliable)
open Stage (fileOf Openable)

/-! ### What is stored -/

/-- What a write of `data` leaves in its file. -/
def stored (data : List UInt8) : Bool → List UInt8
  | false => data
  | true => Frame.lz4Frame data

/-- The longest payload that can be written. -/
def longest : Bool → Nat
  | false => Size.max
  | true => Frame.maxPayload

theorem stored_of_payload {c : Codec Unit} (hl : c = Codec.lz4) {data bytes : List UInt8}
    {compressed : Bool} (hdata : data.length ≤ longest compressed)
    (h : Payload c () data compressed bytes) : bytes = stored data compressed := by
  subst hl
  cases compressed with
  | false => exact h
  | true =>
    have hpack : Frame.pack Codec.lz4 () data = .ok bytes := h
    rw [Frame.pack_lz4 hdata] at hpack
    exact (Except.ok.inj hpack).symm

theorem length_stored_le {data : List UInt8} {compressed : Bool}
    (hdata : data.length ≤ longest compressed) :
    (stored data compressed).length ≤ Size.max := by
  cases compressed with
  | false => exact hdata
  | true =>
    have hframe := Frame.length_lz4Frame_le data
    have hmax : data.length ≤ 4294967295 := hdata
    show (Frame.lz4Frame data).length ≤ 18446744073709551615
    omega

variable {σ η ν : Type} {p : Setup σ η Unit} {v : View σ η ν} {d d' d₀ : Dispatcher σ Unit}
  {rs rs' : List Submission} {ts ts' : List (Turn σ Unit)} {path : String} {data : List UInt8}
  {compressed : Bool}

/-! ### Work that is not disturbed -/

/-- Nothing from outside comes in the way of the work with a number in the turns `ts`. -/
structure Undisturbed (p : Setup σ η Unit) (id : WorkId) (ts : List (Turn σ Unit)) : Prop where
  /-- No other work brings a worker down, -/
  crash_free : ∀ t ∈ ts, t.work.id ≠ id → t.crashed p = false
  /-- and no memory is refused to it. -/
  memory : ∀ t ∈ ts, t.work.id = id → ∀ e, t.result p ≠ Attempt.fail (.memory e)

theorem Undisturbed.crashed {id : WorkId} (h : Undisturbed p id ts)
    (hok : ∀ t ∈ ts, t.work.id = id → t.result p = .ok ()) : ∀ t ∈ ts, t.crashed p = false := by
  intro t ht
  by_cases hid : t.work.id = id
  · unfold Turn.crashed
    rw [hok t ht hid]
    rfl
  · exact h.crash_free t ht hid

theorem undisturbed_of_ok {t : Turn σ Unit} {id : WorkId} (hid : t.work.id = id)
    (hok : t.result p = .ok ()) : Undisturbed p id [t] := by
  refine ⟨fun u hu hne => ?_, fun u hu _ e he => ?_⟩
  · obtain rfl := List.mem_singleton.mp hu
    exact absurd hid hne
  · obtain rfl := List.mem_singleton.mp hu
    rw [hok] at he
    cases he

/-- The work with a number ends, and from its end on its ticket shows `P`. -/
structure EndsWith (p : Setup σ η Unit) (d : Dispatcher σ Unit) (id : WorkId) (P : Ticket → Prop) :
    Prop where
  /-- Without further submissions there are only so many steps, and where none is possible any more it
      has ended. -/
  ends : ∀ n d', Steps p d n d' → n ≤ d.remaining ∧
    (Resting p d' → ∃ t, d'.tickets[id]? = some t ∧ t.isDone = true)
  shows : ∀ t, d.tickets[id]? = some t → t.isDone = true → P t

/-- The ticket of a read that succeeded with `data`. -/
structure Gives (data : List UInt8) (nullTerminate : Bool) (t : Ticket) : Prop where
  status : t.statusCode = 0
  size : t.size = data.length
  /-- The buffer is there until the client takes it over. -/
  buffer : t.HandedOver ∨ t.buffer = some data ∧
    (nullTerminate = true → t.terminated = some (data ++ [0]))

theorem gives_of_shows {t : Ticket} {o : Outcome} {b : Buffer} {nullTerminate : Bool}
    (h : t.Shows o) (hop : t.op = .read) (hok : t.result = .ok ()) (ho : o.buffer = .owned b)
    (hb : b.Delivers data nullTerminate) (hsize : o.size = data.length) :
    Gives data nullTerminate t := by
  refine ⟨by unfold Ticket.statusCode; rw [hok]; rfl, h.size.trans hsize, ?_⟩
  rcases h.buffer with hbuf | hover
  · have hbuf : t.look.1.buffer = .owned b := hbuf.trans ho
    have hres : t.look.1.result = .ok () := hok
    refine Or.inr ⟨?_, fun hn => ?_⟩
    · unfold Ticket.buffer
      rw [hres, hbuf]
      exact congrArg some hb.bytes
    · unfold Ticket.terminated
      rw [hbuf, hop]
      exact hb.terminator hn
  · exact Or.inl hover

namespace Alone

section

variable (h₀ : Unused p d₀) (hl : p.codec = Codec.lz4) (hb : p.backend.Honest v)
  (hs : v.sound d₀.backend) (hr : p.backend.Reliable v (v.file path))
  (hopen : ∃ native, nativePath path = .ok native) (hdata : data.length ≤ longest compressed)

include h₀ hl hb hs hdata

/-! ### The write -/

include hr hopen in
theorem write_ok (h : Alone p v d₀ rs ts d (.write path data compressed) rs' ts' d')
    (hu : Undisturbed p rs.length (ts ++ ts')) {t : Turn σ Unit} (ht : t ∈ ts ++ ts')
    (hid : t.work.id = rs.length) : t.result p = .ok () := by
  have hc : p.codec.Pure := hl ▸ Codec.pure_lz4
  obtain ⟨ha, hB⟩ := h.told h₀ hb hs hc ht hid ()
  obtain ⟨d₁, s, w⟩ := t
  cases s with
  | io =>
    have hw := Stage.processIo_write_spec d₁.heaps hb (h.recorded.sound_at hb hs ht) ha.op
    refine hw.served (ha.fileOf ▸ hr) (by unfold Openable; rw [ha.text]; exact hopen) ?_
    have hbytes : Payload p.codec () data compressed w.buffer.bytes := hB
    rw [stored_of_payload hl hdata hbytes]
    exact length_stored_le hdata
  | compression =>
    obtain ⟨rfl, hbytes⟩ := hB
    have hp := Stage.processCompression_write_spec (p := p) d₁.heaps hc () d₁.codec ha.op
    have hroom := (Frame.bound_lz4 (n := data.length) hdata).2
    have hframe := (Frame.encode_lz4 hdata (Span.size_zeros (24 + data.length * 110 / 100))).1
    rcases hp.served _ _ (by rw [hl, hbytes]; exact hroom) (by rw [hl, hbytes]; exact hframe)
      (Frame.length_lz4Frame_le data) with hok | ⟨e, he⟩
    · exact hok
    · exact absurd he (hu.memory _ ht hid e)

theorem write_shows (h : Alone p v d₀ rs ts d (.write path data compressed) rs' ts' d') {t : Ticket}
    (ht : d'.tickets[rs.length]? = some t) (hd : t.isDone = true) (hok : t.result = .ok ()) :
    v.contents d'.backend (v.file path) = some (stored data compressed) := by
  have hc : p.codec.Pure := hl ▸ Codec.pure_lz4
  obtain ⟨r, u, o, hr, hu, hid, hserves, -⟩ := h.recorded.answers h₀ hb hs hc ht hd hok ()
  rw [getElem?_submission] at hr
  cases hr
  obtain ⟨bytes, hbytes, hfile, -⟩ := hserves
  have hhere := hfile.here
  rw [stored_of_payload hl hdata hbytes] at hhere
  exact (h.left h₀ hb hs hu hid).trans hhere

/-! ### The read -/

variable {heap : HeapId} {nullTerminate : Bool}
  (hfile : v.contents d.backend (v.file path) = some (stored data compressed))

include hfile

include hr hopen in
theorem read_ok (h : Alone p v d₀ rs ts d (.read path heap nullTerminate compressed) rs' ts' d')
    (hu : Undisturbed p rs.length (ts ++ ts')) {t : Turn σ Unit} (ht : t ∈ ts ++ ts')
    (hid : t.work.id = rs.length) : t.result p = .ok () := by
  have hc : p.codec.Pure := hl ▸ Codec.pure_lz4
  obtain ⟨ha, hB⟩ := h.told h₀ hb hs hc ht hid ()
  -- what the file holds in all turns of the read
  have hat : ∀ u ∈ ts ++ ts', u.work.id = rs.length →
      v.contents u.before.backend (v.file path) = some (stored data compressed) := fun u hu hid =>
    ((h.steady h₀ hb hs rfl).2 u (h.mem_of_id h₀ hu hid)).trans hfile
  have hserved : t.result p = .ok () ∨ ∃ e, t.result p = Attempt.fail (.memory e) := by
    have hcontents := hat t ht hid
    obtain ⟨d₁, s, w⟩ := t
    cases s with
    | io =>
      have hread := Stage.processIo_read_spec (p := p) d₁.heaps hb
        (h.recorded.sound_at hb hs ht) ha.op
      rcases hread.served (ha.fileOf ▸ hr) (by unfold Openable; rw [ha.text]; exact hopen) _
        (by rw [ha.fileOf]; exact hcontents) with hok | ⟨e, -, he⟩
      · exact Or.inl hok
      · exact Or.inr ⟨e, he⟩
    | compression =>
      obtain ⟨rfl, u, hu', huid, hframe⟩ := hB
      have hbytes := Option.some.inj
        (hframe.symm.trans (hat u (mem_ioTurns.mp hu').1 (huid.trans hid)))
      rcases (Stage.processCompression_read_spec (p := p) d₁.heaps hc () d₁.codec
        ha.op).served with he | hok
      · exact Or.inr he
      · rw [hl, hbytes, show Frame.unpack Codec.lz4 () (stored data true) = .ok data from
          Frame.unpack_lz4 hdata] at hok
        exact Or.inl hok
  rcases hserved with hok | ⟨e, he⟩
  · exact hok
  · exact absurd he (hu.memory t ht hid e)

/-- Where the read has succeeded its ticket gives the payload. -/
theorem read_shows (h : Alone p v d₀ rs ts d (.read path heap nullTerminate compressed) rs' ts' d')
    {t : Ticket} (ht : d'.tickets[rs.length]? = some t) (hd : t.isDone = true)
    (hok : t.result = .ok ()) : Gives data nullTerminate t := by
  have hc : p.codec.Pure := hl ▸ Codec.pure_lz4
  obtain ⟨r, u, o, hr, hu, hid, hserves, hshows⟩ := h.recorded.answers h₀ hb hs hc ht hd hok ()
  rw [getElem?_submission] at hr
  cases hr
  have hat := ((h.steady h₀ hb hs rfl).2 u
    (h.mem_of_id h₀ (mem_ioTurns.mp hu).1 hid)).trans hfile
  have hop : t.op = .read := h.recorded.run.ticket_op h₀.tickets ht (getElem?_submission _ _ _)
  cases compressed with
  | false =>
    obtain ⟨data', b, hheld, hbuf, hdel, hsize⟩ := hserves
    obtain rfl : data' = data := Option.some.inj (hheld.symm.trans hat)
    exact gives_of_shows hshows hop hok hbuf hdel hsize
  | true =>
    obtain ⟨frame, data', b, hheld, hunpack, hbuf, hdel, hsize⟩ := hserves
    obtain rfl : frame = Frame.lz4Frame data := Option.some.inj (hheld.symm.trans hat)
    rw [hl, Frame.unpack_lz4 hdata] at hunpack
    cases hunpack
    exact gives_of_shows hshows hop hok hbuf hdel hsize

end

end Alone

/-! ### The round trip -/

/-- That a write of `data`, submitted in the state `d`, and a read of its file once the write has ended
    do what they are asked for. -/
structure RoundTrip (p : Setup σ η Unit) (v : View σ η ν) (path : String) (data : List UInt8)
    (compressed : Bool) (d d' : Dispatcher σ Unit) : Prop where
  /-- The write ends with success, and its bytes are in the file then. -/
  written : EndsWith p d' d.nextId fun t => t.statusCode = 0 ∧
    v.contents d'.backend (v.file path) = some (stored data compressed)
  /-- A read that is submitted then, for whatever heap and with a terminator or without, ends with
      success as well, if it is alone on the file and not disturbed. Its ticket gives the payload, and
      the file is as before. -/
  read : ∀ t, d'.tickets[d.nextId]? = some t → t.isDone = true → d'.halt = .running →
    ∀ heap nullTerminate rs ts d'',
      Recorded p (d'.submit p (.read path heap nullTerminate compressed)) rs ts d'' →
      (∀ r ∈ rs, v.file r.path ≠ v.file path) → Undisturbed p d'.nextId ts →
      EndsWith p d'' d'.nextId fun t => Gives data nullTerminate t ∧
        v.contents d''.backend (v.file path) = some (stored data compressed)

/-- Over an honest backend and with the LZ4 codec: a payload that is written to a reliable file is read
    back, whatever other work is in flight on other files, if no worker crashes and no memory is
    refused. -/
theorem Alone.round_trip (h₀ : Fresh p d₀) (hl : p.codec = Codec.lz4) (hb : p.backend.Honest v)
    (hs : v.sound d₀.backend) (hr : p.backend.Reliable v (v.file path))
    (hfit : ∃ f, PathField.ofString? path = .ok f) (hopen : ∃ native, nativePath path = .ok native)
    (hdata : data.length ≤ longest compressed)
    (h : Alone p v d₀ rs ts d (.write path data compressed) rs' ts' d')
    (hu : Undisturbed p d.nextId (ts ++ ts')) : RoundTrip p v path data compressed d d' := by
  have h₀ := h₀.unused
  have hc : p.codec.Pure := hl ▸ Codec.pure_lz4
  rw [show d.nextId = rs.length from h.before.run.length h₀.tickets] at hu
  have hwrite : ∀ t ∈ ts ++ ts', t.work.id = rs.length → t.result p = .ok () := fun _ =>
    h.write_ok h₀ hl hb hs hr hopen hdata hu
  have hcalm := hu.crashed hwrite
  have hdone : ∀ t, d'.tickets[rs.length]? = some t → t.isDone = true → t.statusCode = 0 ∧
      v.contents d'.backend (v.file path) = some (stored data compressed) := by
    intro t ht hd
    have hok := h.recorded.result_ok h₀ (getElem?_submission _ _ _) hfit hcalm hwrite ht hd
    exact ⟨congrArg FilePipeline.statusCode hok, h.write_shows h₀ hl hb hs hdata ht hd hok⟩
  constructor
  · rw [show d.nextId = rs.length from h.before.run.length h₀.tickets]
    exact ⟨fun n d₁ => h.recorded.ends h₀ (by simp), hdone⟩
  · intro t ht hd running heap nullTerminate rs'' ts'' d'' after others hu'
    rw [show d.nextId = rs.length from h.before.run.length h₀.tickets] at ht
    rw [show d'.nextId = _ from h.recorded.run.length h₀.tickets] at hu' ⊢
    have hnext := h.next h₀ ht hd (q := .read path heap nullTerminate compressed) rfl running after
      others
    have hfile := (hdone t ht hd).2
    have hboth : Undisturbed p (rs ++ .write path data compressed :: rs').length
        (ts ++ ts' ++ ts'') := by
      refine ⟨fun u hmem hid => ?_, fun u hmem hid => ?_⟩
      · rcases List.mem_append.mp hmem with hmem | hmem
        · exact hcalm u hmem
        · exact hu'.crash_free u hmem hid
      · exact hu'.memory u (hnext.mem_of_id h₀ hmem hid) hid
    have hread : ∀ u ∈ ts ++ ts' ++ ts'',
        u.work.id = (rs ++ .write path data compressed :: rs').length → u.result p = .ok () :=
      fun _ => hnext.read_ok h₀ hl hb hs hr hopen hdata hfile hboth
    refine ⟨fun n d₁ => hnext.recorded.ends h₀ (by simp), fun u hu hud => ⟨?_, ?_⟩⟩
    · have hok := hnext.recorded.result_ok h₀ (getElem?_submission _ _ _) hfit
        (hboth.crashed hread) hread hu hud
      exact hnext.read_shows h₀ hl hb hs hdata hfile hu hud hok
    · exact (hnext.steady h₀ hb hs rfl).1.trans hfile

open Backend.Scripted (Store slowView slow_initial)

/-- A run in which two bytes are written plainly and then read back with a terminator over a slow store,
    by its two turns. -/
theorem exists_read_back : ∃ d₀ d₁ w d d₂ u d', lz4? 1 = some d₀ ∧ d₀.backend = {} ∧
    replay (lz4Setup 1) [.submit (.write "f" [1, 2] false), .act (.push 0), .act (.pop .io)] d₀ =
      some d₁ ∧ d₁.tasks.get .io = .busy w ∧ w.id = 0 ∧
    d₁.step (lz4Setup 1) (.process .io) = some d ∧
    (⟨d₁, .io, w⟩ : Turn Store Unit).result (lz4Setup 1) = .ok () ∧
    (∃ t, d.tickets[0]? = some t ∧ t.isDone = true) ∧
    replay (lz4Setup 1) [.submit (.read "f" 0 true false), .act (.push 0), .act (.pop .io)] d =
      some d₂ ∧ d₂.tasks.get .io = .busy u ∧ u.id = 1 ∧
    d₂.step (lz4Setup 1) (.process .io) = some d' ∧
    (⟨d₂, .io, u⟩ : Turn Store Unit).result (lz4Setup 1) = .ok () ∧
    ∃ t, d'.tickets[1]? = some t ∧ t.isDone = true := by
  obtain ⟨d₀, d₁, w, d, h₀, hb₀, hr₁, hw, hid, hstep, hok, ⟨t, ht, hd, -⟩, hslow, hfile, d₂, u, hr₂,
    hu, hheaps, hb₂, ht₂, huid, huop, hplain, hpath, htarget⟩ := exists_written
  -- the read gets its buffer
  have hread := Stage.processIo_read_spec (p := lz4Setup 1) d₂.heaps Backend.Scripted.honest
    (show slowView.sound d₂.backend by rw [hb₂]; exact hslow) huop
  have hname := PathField.text_of_ofString? hpath
  have hserved := hread.served (Backend.Scripted.reliable _) ⟨"f", by rw [hname]; rfl⟩ [1, 2]
    (by rw [hb₂, show fileOf slowView u = "f" from hname]; exact hfile)
  have hok₂ : (Stage.processIo (lz4Setup 1) d₂.heaps d₂.backend u).result = .ok () := by
    rcases hserved with hok₂ | ⟨e, he, -⟩
    · exact hok₂
    · unfold Stage.Refused at he
      obtain ⟨b, hs', hnew, -⟩ := Heaps.serves_initial.newBuffer (n := 3) rfl rfl
      rw [show (lz4Setup 1).config.bufferAlignment = defaultAlignment from rfl,
        show ([1, 2] : List UInt8).length = 2 from rfl, htarget, hheaps, hnew] at he
      cases he
  obtain ⟨_, b, -, hwork, -⟩ := hread.full hok₂
  refine ⟨d₀, d₁, w, d, d₂, u, _, h₀, hb₀, hr₁, hw, hid, hstep, hok, ⟨t, ht, hd⟩, hr₂, hu, huid,
    process_busy hu, hok₂, ?_⟩
  show ∃ t, (conclude (processing (lz4Setup 1) d₂ .io u).1 .io
    (Stage.processIo (lz4Setup 1) d₂.heaps d₂.backend u).work
    (Stage.processIo (lz4Setup 1) d₂.heaps d₂.backend u).result).tickets[1]? = some t ∧
      t.isDone = true
  rw [hok₂, hwork, tickets_conclude (by unfold handsOn; rw [hplain, Bool.and_false])
    (by rw [← ht₂, ← huid]; rfl) rfl, huid]
  exact ⟨_, List.getElem?_set_self (List.getElem?_eq_some_iff.mp ht₂).1, rfl⟩

/-- Two bytes written plainly and read back with a terminator over a slow store. -/
theorem round_trip_of_two_bytes :
    ∃ d₀ d d' ts ts', Fresh (lz4Setup 1) d₀ ∧
      Alone (lz4Setup 1) slowView d₀ [] [] d₀ (.write "f" [1, 2] false) [] ts d ∧
      Recorded (lz4Setup 1) (d.submit (lz4Setup 1) (.read "f" 0 true false)) [] ts' d' ∧
      RoundTrip (lz4Setup 1) slowView "f" [1, 2] false d₀ d ∧
      ∃ t, d'.tickets[1]? = some t ∧ t.isDone = true ∧ Gives [1, 2] true t := by
  obtain ⟨d₀, d₁, w, d, d₂, u, d', h₀, hb₀, hr₁, hw, hid, hstep, hok, ⟨t, ht, hd⟩, hr₂, hu, huid,
    hstep₂, hok₂, t', ht', hd'⟩ := exists_read_back
  have hfresh : Fresh (lz4Setup 1) d₀ := fresh_of_start h₀
  obtain ⟨hrunning, hr₁⟩ := replay_submit hr₁
  obtain ⟨hrunning₂, hr₂⟩ := replay_submit hr₂
  have hnext : d₀.nextId = 0 := congrArg List.length hfresh.unused.tickets
  -- the write
  have hwrite := (recorded_of_quiet (by simp) hr₁).turn hw hstep
  have halone : Alone (lz4Setup 1) slowView d₀ [] [] d₀ (.write "f" [1, 2] false) []
      [⟨d₁, .io, w⟩] d :=
    ⟨.start, hrunning, hwrite, (fun id r' t hr' => by cases hr'), fun r' hr' => by cases hr'⟩
  have hcalm : Undisturbed (lz4Setup 1) d₀.nextId ([] ++ [⟨d₁, .io, w⟩]) :=
    undisturbed_of_ok (hid.trans hnext.symm) hok
  have hround := Alone.round_trip hfresh rfl Backend.Scripted.honest
    (by rw [hb₀]; exact slow_initial) (Backend.Scripted.reliable "f") ⟨_, rfl⟩ ⟨_, rfl⟩ (by decide)
    halone hcalm
  have hnext' : d.nextId = 1 := halone.recorded.run.length hfresh.unused.tickets
  -- the read
  have hturn := (recorded_of_quiet (by simp) hr₂).turn hu hstep₂
  have hends := hround.read t (by rw [hnext]; exact ht) hd hrunning₂ 0 true [] _ _ hturn
    (fun r hr => by cases hr) (undisturbed_of_ok (huid.trans hnext'.symm) hok₂)
  rw [hnext'] at hends
  exact ⟨d₀, d, _, _, _, hfresh, halone, hturn, hround, t', ht', hd', (hends.shows t' ht' hd').1⟩

end FilePipeline.Dispatcher
