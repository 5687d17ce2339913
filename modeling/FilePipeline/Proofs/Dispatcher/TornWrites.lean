import FilePipeline.Proofs.Dispatcher.Unframing

/-! # Torn writes

A compressed write that breaks off leaves a frame in its file whose end is missing. No such bytes
are unframed, wherever the frame ends and whoever wrote it, so no compressed read succeeds with them
until the file is written again (`Recorded.detects_torn`). The two halves meet at the bytes in the
file: the loop that writes leaves some of the frame away on every error (`Stage.torn_of_breaksOff`),
and a frame that is cut short decodes to less than it announces (`Frame.IsFrame.decode_torn`). -/

namespace FilePipeline.Dispatcher

open Backend (Honest)
open Stage (fileOf BreaksOff)

variable {σ η ν : Type} {p : Setup σ η Unit} {v : View σ η ν} {d d₀ : Dispatcher σ Unit}
  {rs : List Submission} {ts : List (Turn σ Unit)} {path : String} {data : List UInt8}

/-- What is left of a frame of `data` whose end is missing. -/
def Torn (data torn : List UInt8) : Prop :=
  ∃ frame, Frame.IsFrame frame data ∧ torn <+: frame ∧ torn ≠ frame

/-- The turn in which a compressed write breaks off. -/
structure Tears (p : Setup σ η Unit) (rs : List Submission) (path : String) (data : List UInt8)
    (u : Turn σ Unit) : Prop where
  io : u.stage = .io
  asked : rs[u.work.id]? = some (.write path data true)
  breaks : BreaksOff p u.before.backend u.work

/-- That torn frames are noticed in a run with the submissions `rs` and the turns `ts`. -/
structure DetectsTorn (p : Setup σ η Unit) (v : View σ η ν) (rs : List Submission)
    (ts : List (Turn σ Unit)) (d : Dispatcher σ Unit) : Prop where
  /-- What is unframed into some span is not unframed into any more once its end is missing. -/
  frames : ∀ frame dst n, (Frame.decode p.codec () frame dst).answer = .ok n →
    ∀ torn, torn <+: frame → torn ≠ frame → ∀ dst' : Span,
      ∃ e, (Frame.decode p.codec () torn dst').answer = Attempt.fail e
  /-- A compressed write that breaks off fails, and such bytes are in its file then. -/
  left : ∀ u ∈ ts, ∀ path data, Tears p rs path data u → (∃ e, u.result p = .error e) ∧
    ∃ torn, Torn data torn ∧ v.contents (u.effect p u.before.backend) (v.file path) = some torn
  /-- A compressed read that comes to the file before it is written again does not succeed. -/
  reads : ∀ ts₁ u ts₂ t ts₃, ts = ts₁ ++ u :: (ts₂ ++ t :: ts₃) → ∀ path data,
    Tears p rs path data u →
    (∀ x ∈ ts₂, x.stage = .io → x.work.op = .write → fileOf v x.work ≠ v.file path) →
    t.stage = .io → ∀ path' heap nullTerminate,
      rs[t.work.id]? = some (.read path' heap nullTerminate true) → v.file path' = v.file path →
      ∀ k, d.tickets[t.work.id]? = some k → k.isDone = true → k.result ≠ .ok ()

theorem Torn.unpack {torn : List UInt8} (h : Torn data torn) :
    ∃ e, Frame.unpack Codec.lz4 () torn = Attempt.fail e := by
  obtain ⟨frame, hframe, ht, hne⟩ := h
  exact hframe.unpack_torn ht hne

/-- What a compressed write leaves that breaks off. -/
theorem Recorded.torn_of_tears (h₀ : Unused p d₀) (hl : p.codec = Codec.lz4)
    (hb : p.backend.Honest v) (hs : v.sound d₀.backend) (h : Recorded p d₀ rs ts d)
    {u : Turn σ Unit} (hu : u ∈ ts) (ht : Tears p rs path data u) :
    (∃ e, u.result p = .error e) ∧ ∃ torn, Torn data torn ∧
      v.contents (u.effect p u.before.backend) (v.file path) = some torn := by
  have hsound := h.sound_at hb hs hu
  obtain ⟨hio, hasked, hbreaks⟩ := ht
  obtain ⟨ha, hB⟩ := (h.told hb (hl ▸ Codec.pure_lz4) hs h₀ hu ()).of_submission hasked
  obtain ⟨d₁, s, w⟩ := u
  obtain rfl : s = .io := hio
  have hpack : Frame.pack p.codec () data = .ok w.buffer.bytes := hB
  rw [hl] at hpack
  obtain ⟨hframe, hmax⟩ := Frame.isFrame_of_pack hpack
  obtain ⟨hfail, n, hn, hfile⟩ :=
    Stage.torn_of_breaksOff (w := w) d₁.heaps hb hsound ha.op hmax hbreaks
  rw [ha.fileOf] at hfile
  refine ⟨hfail, _, ⟨_, hframe, List.take_prefix _ _, fun he => ?_⟩, hfile⟩
  have hlen : min n w.buffer.bytes.length = w.buffer.bytes.length := by
    rw [← List.length_take]
    exact congrArg List.length he
  omega

/-- With the LZ4 codec and over an honest backend, whatever else fails, crashes or is refused: a
    frame whose end is missing is never taken for a whole one. -/
theorem Recorded.detects_torn (h₀ : Fresh p d₀) (hl : p.codec = Codec.lz4)
    (hb : p.backend.Honest v) (hs : v.sound d₀.backend) (h : Recorded p d₀ rs ts d) :
    DetectsTorn p v rs ts d := by
  have h₀ := h₀.unused
  refine ⟨fun frame dst n hn torn hprefix hne dst' => ?_,
    fun u hu path data ht => h.torn_of_tears h₀ hl hb hs hu ht, ?_⟩
  · rw [hl] at hn ⊢
    obtain ⟨data, hframe, -⟩ := Frame.isFrame_of_decode hn
    exact hframe.decode_torn hprefix hne dst'
  · rintro ts₁ u ts₂ t ts₃ rfl path data ht hquiet hio path' heap nullTerminate hr hsame k hk hd hok
    obtain ⟨-, torn, htorn, hfile⟩ := h.torn_of_tears h₀ hl hb hs (by simp) ht
    rw [← h.contents_until hb hs hquiet] at hfile
    -- if the read had succeeded, its own turn would have found a frame there
    obtain ⟨r, x, o, hr', hx, hxid, hserves, -⟩ :=
      h.answers h₀ hb hs (hl ▸ Codec.pure_lz4) hk hd hok ()
    obtain rfl := h.eq_of_io h₀ hx (mem_ioTurns.mpr ⟨by simp, hio⟩) hxid
    obtain rfl := Option.some.inj (hr.symm.trans hr')
    obtain ⟨frame, data', b, hframe, hunpack, -⟩ := hserves
    rw [hsame, hfile] at hframe
    obtain rfl := Option.some.inj hframe
    obtain ⟨e, he⟩ := htorn.unpack
    rw [hl, he] at hunpack
    cases hunpack

/-! ### A frame of which nothing was written -/

open Backend.Scripted (Store viewOf Faults.Truthful kind_truthful honest_viewOf)

/-- A store that takes no bytes for one of its paths. -/
def failingStore : Store := ({} : Store).setFaults "f" { writes := [.fail (.os 5)] }

theorem truthful_failingStore (path : String) : (failingStore.faults path).Truthful := by
  refine Backend.Scripted.setFaults_faults (fun _ => ?_) ?_ path
  · exact ⟨(fun n h => by cases h), (fun m h => by cases h), fun m h => by cases h⟩
  · refine ⟨(fun n h => by cases h), (fun m h => by cases h), fun m h n => ?_⟩
    obtain rfl := List.mem_singleton.mp h
    simp

theorem breaksOff_failingStore {w : Work} (hpath : PathField.ofString? "f" = .ok w.path)
    (hne : w.buffer.bytes ≠ []) : BreaksOff (lz4Setup 1) failingStore w := by
  refine ⟨"f", ⟨"f", 0⟩, .error (.os 5), ?_, rfl, Backend.writeFull_of_error hne rfl rfl⟩
  rw [PathField.text_of_ofString? hpath]
  rfl

/-- A run up to the turn in which a write is compressed, with a read of the same file behind it, and
    how it goes on to the turn in which the frame is written. -/
theorem exists_write_packed : ∃ d₀ d w,
    ((start (lz4Setup 1) ⟨⟨[], 1⟩, fun _ => none⟩ .initial failingStore ()).answer.toOption =
      some d₀) ∧ d₀.backend = failingStore ∧
    replay (lz4Setup 1) [.submit (.write "f" [65] true), .submit (.read "f" 0 false true),
      .act (.push 0), .act (.pop .compression)] d₀ = some d ∧
    d.tasks.get .compression = .busy w ∧ d.backend = failingStore ∧ d.heaps = .initial ∧
    w.id = 0 ∧ w.op = .write ∧ w.buffer.bytes = [65] ∧
    ∀ hs b n, ∃ d' u, replay (lz4Setup 1) [.act (.hand .compression), .act (.pop .io)]
        (({ d with heaps := hs } : Dispatcher Store Unit).conclude .compression
          { w with buffer := .owned b, size := n } (.ok ())) = some d' ∧
      d'.tasks.get .io = .busy u ∧ d'.backend = failingStore ∧ u.id = 0 ∧ u.op = .write ∧
      u.buffer = .owned b ∧ PathField.ofString? "f" = .ok u.path :=
  ⟨_, _, _, rfl, rfl, rfl, rfl, rfl, rfl, rfl, rfl, rfl,
    fun _ _ _ => ⟨_, _, rfl, rfl, rfl, rfl, rfl, rfl, rfl⟩⟩

/-- A run in which a compressed write breaks off before a read of its file. -/
theorem exists_torn : ∃ d₀ d c u, Fresh (lz4Setup 1) d₀ ∧ d₀.backend = failingStore ∧
    Recorded (lz4Setup 1) d₀ [.write "f" [65] true, .read "f" 0 false true] [c, u] d ∧
    c.stage = .compression ∧ u.work.id = 0 ∧
    Tears (lz4Setup 1) [.write "f" [65] true, .read "f" 0 false true] "f" [65] u := by
  obtain ⟨d₀, d₁, w, h₀, hb₀, hr₁, hw, hb, hheaps, hid, hop, hbytes, hnext⟩ :=
    exists_write_packed
  -- the turn of the compression worker, which gets its buffer
  have hpacked := Stage.processCompression_write_spec (p := lz4Setup 1) d₁.heaps Codec.pure_lz4 ()
    d₁.codec hop
  have hok : (Stage.processCompression (lz4Setup 1) d₁.heaps d₁.codec w).result = .ok () := by
    have hlen : ([65] : List UInt8).length ≤ Frame.maxPayload := by decide
    have hroom := (Frame.bound_lz4 hlen).2
    have hframe := (Frame.encode_lz4 hlen (Span.size_zeros _)).1
    rw [← hbytes] at hroom hframe
    rcases hpacked.served _ _ hroom hframe (Frame.length_lz4Frame_le _) with hok | ⟨e, he⟩
    · exact hok
    · obtain ⟨room, hs', hroom', hnew⟩ := Stage.refused_of_compress hop he
      obtain rfl := Except.ok.inj (hroom.symm.trans hroom')
      obtain ⟨b, hs'', hnew', -⟩ := Heaps.serves_initial.newBuffer (n := 24 + 1 * 110 / 100) rfl rfl
      rw [hheaps, hbytes] at hnew
      cases hnew'.symm.trans hnew
  obtain ⟨b, hpack, hwork, -⟩ := hpacked.full hok
  rw [hbytes] at hpack
  obtain ⟨hframe, -⟩ := Frame.isFrame_of_pack hpack
  have hstep₁ : d₁.step (lz4Setup 1) (.process .compression) = _ := process_busy hw
  unfold processing at hstep₁
  dsimp only at hstep₁
  rw [hok, hwork] at hstep₁
  obtain ⟨d₂, u, hr₂, hu, hb₂, huid, huop, hubuf, hpath⟩ := hnext
    (Stage.processCompression (lz4Setup 1) d₁.heaps d₁.codec w).heaps b b.length
  -- the turn of the I/O worker
  have hbegun := (recorded_of_quiet (by simp) hr₁).turn hw hstep₁
  have hrec := (hbegun.trans (recorded_of_quiet (by simp) hr₂)).turn hu (process_busy hu)
  refine ⟨d₀, _, _, _, fresh_of_start h₀, hb₀, hrec, rfl, huid, rfl, ?_, ?_⟩
  · rw [show (⟨d₂, .io, u⟩ : Turn Store Unit).work.id = 0 from huid]
    rfl
  · show BreaksOff (lz4Setup 1) d₂.backend u
    rw [hb₂]
    refine breaksOff_failingStore hpath fun hnone => ?_
    have hlen := hframe.header
    rw [show b.bytes = [] by rw [← hnone, hubuf]; rfl] at hlen
    cases hlen

/-- Where that run comes to rest the read has ended, and not with success. -/
theorem detects_torn_of_one_byte : ∃ d₀ d ts u k, Fresh (lz4Setup 1) d₀ ∧
    Recorded (lz4Setup 1) d₀ [.write "f" [65] true, .read "f" 0 false true] ts d ∧ u ∈ ts ∧
    Tears (lz4Setup 1) [.write "f" [65] true, .read "f" 0 false true] "f" [65] u ∧
    DetectsTorn (lz4Setup 1) (viewOf Faults.Truthful)
      [.write "f" [65] true, .read "f" 0 false true] ts d ∧
    d.tickets[1]? = some k ∧ k.isDone = true ∧ k.result ≠ .ok () := by
  obtain ⟨d₀, d₁, c, u, hfresh, hb₀, hrec, hc, huid, htears⟩ := exists_torn
  have h₀ := hfresh.unused
  have hb := honest_viewOf kind_truthful
  have hs : (viewOf Faults.Truthful).sound d₀.backend := by
    rw [hb₀]
    exact truthful_failingStore
  obtain ⟨n, d, hsteps, hrest⟩ :=
    Steps.exists_resting (hrec.run.holds onItsWay_stable (h₀.holds _)) .start
  obtain ⟨ts, hlater⟩ := hsteps.run.recorded
  have hall : Recorded (lz4Setup 1) d₀ [.write "f" [65] true, .read "f" 0 false true]
      ([c] ++ u :: ts) d := hrec.trans hlater
  obtain ⟨k, hk, hd⟩ := (hall.at_rest h₀ hrest).ended 1 (by decide)
  have hdetects := Recorded.detects_torn hfresh rfl hb hs hall
  refine ⟨d₀, d, _, u, k, hfresh, hall, by simp, htears, hdetects, hk, hd, fun hok => ?_⟩
  -- its turn came later, since the two others are of the write
  obtain ⟨r, x, o, -, hx, hxid, -⟩ := hall.answers h₀ hb hs Codec.pure_lz4 hk hd hok ()
  obtain ⟨hmem, hio⟩ := mem_ioTurns.mp hx
  have hmem : x ∈ ts := by
    rcases List.mem_cons.mp hmem with rfl | hmem
    · rw [hc] at hio
      cases hio
    · rcases List.mem_cons.mp hmem with rfl | hmem
      · rw [huid] at hxid
        cases hxid
      · exact hmem
  obtain ⟨ts₂, ts₃, rfl⟩ := List.append_of_mem hmem
  refine hdetects.reads [c] u ts₂ x ts₃ rfl "f" [65] htears (fun y hy hyio hyop => ?_) hio "f" 0
    false (by rw [hxid]; rfl) rfl k (by rw [hxid]; exact hk) hd hok
  have hne := hall.id_ne_of_later h₀ htears.io (List.mem_append_left _ hy) hyio
  obtain ⟨r, hr, ha, -⟩ := hall.told hb Codec.pure_lz4 hs h₀ (t := y) (by simp [hy]) ()
  have hop := ha.op.symm.trans hyop
  rw [huid] at hne
  rcases hid : y.work.id with _ | _ | id
  · exact absurd hid hne
  · rw [hid] at hr
    cases hr
    cases hop
  · rw [hid] at hr
    cases hr

end FilePipeline.Dispatcher
