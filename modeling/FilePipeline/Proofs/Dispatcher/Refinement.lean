import FilePipeline.Proofs.Backend.Slow
import FilePipeline.Proofs.Dispatcher.Serial
import FilePipeline.Proofs.Stage.Frames
import FilePipeline.Proofs.Stage.Transfers

/-! # The pipeline is a sequential file store

Over an honest backend and with a pure codec, what a dispatcher does to its files and what its handles
say of them is what a store would do and say that serves one piece of work after the other, in the
order in which the I/O worker has its turns (`Recorded.refines`). That order is all there is to the
interleaving: a turn is a whole transfer, and what the compression worker does before or after it
depends on nothing but the bytes of the work.

To tell those bytes, `Told` follows each piece of work through its stages: what it is to write is the
payload it was submitted with, or the frame of it, and what it has read is what its file held in its
I/O turn. -/

namespace FilePipeline

theorem PathField.text_of_ofString? {path : String} {f : PathField}
    (h : PathField.ofString? path = .ok f) : f.text = path := by
  unfold PathField.ofString? at h
  dsimp only at h
  split at h
  · cases h
  · cases h
    unfold PathField.text
    dsimp only
    rw [ByteArray.extract_append_eq_left rfl, String.toUTF8_eq_toByteArray]
    unfold String.fromUTF8?
    rw [dif_pos path.isValidUTF8]
    rfl

namespace Dispatcher

open Backend (Honest)
open Stage (fileOf)

variable {σ η κ ν : Type} {p : Setup σ η κ} {v : View σ η ν} {k : κ} {d d' d₀ : Dispatcher σ κ}
  {rs : List Submission} {ts : List (Turn σ κ)}

/-! ### The sequential store -/

/-- The bytes that a write puts into its file. -/
def Payload (c : Codec κ) (k : κ) (data : List UInt8) : Bool → List UInt8 → Prop
  | false, bytes => bytes = data
  | true, bytes => Frame.pack c k data = .ok bytes

/-- What a submission may do to the files: nothing if it is a read, and if it is a write it changes its
    own file only, and puts nothing there but its bytes, or the first of them if it fails. -/
def Touches (v : View σ η ν) (c : Codec κ) (k : κ) (r : Submission) (s s' : σ) : Prop :=
  match r with
  | .read .. => v.contents s' = v.contents s
  | .write path data compressed => v.Elsewhere (v.file path) s s' ∧
      (v.contents s' (v.file path) = v.contents s (v.file path) ∨
        ∃ bytes n, Payload c k data compressed bytes ∧
          v.contents s' (v.file path) = some (bytes.take n))

/-- What a submission that succeeds does to the files, and the outcome it has. -/
def Serves (v : View σ η ν) (c : Codec κ) (k : κ) (r : Submission) (s s' : σ) (o : Outcome) : Prop :=
  match r with
  | .read path _ nullTerminate false => ∃ data b, v.contents s (v.file path) = some data ∧
      o.buffer = .owned b ∧ b.Delivers data nullTerminate ∧ o.size = data.length
  | .read path _ nullTerminate true => ∃ frame data b, v.contents s (v.file path) = some frame ∧
      Frame.unpack c k frame = .ok data ∧ o.buffer = .owned b ∧ b.Delivers data nullTerminate ∧
      o.size = data.length
  | .write path data compressed => ∃ bytes, Payload c k data compressed bytes ∧
      v.Rewritten (v.file path) bytes s s' ∧ o.size = bytes.length

/-! ### What is known of the bytes of work -/

/-- The work asked for by a submission, whatever buffer it has by now. -/
def AskedFor (p : Setup σ η κ) (r : Submission) (w : Work) : Prop :=
  ∃ path, PathField.ofString? r.path = .ok path ∧
    w.SameAs { Work.ofSubmission w.id p.ownHeap r with path }

namespace AskedFor

variable {r : Submission} {w w' : Work}

theorem op (h : AskedFor p r w) : w.op = r.op := by
  obtain ⟨path, -, h⟩ := h
  rw [h.op]
  cases r <;> rfl

theorem text (h : AskedFor p r w) : w.path.text = r.path := by
  obtain ⟨path, hpath, b, n, h⟩ := h
  rw [h]
  exact PathField.text_of_ofString? hpath

theorem fileOf (h : AskedFor p r w) : Stage.fileOf v w = v.file r.path := congrArg v.file h.text

theorem sameAs (h : AskedFor p r w) (hw : w'.SameAs w) : AskedFor p r w' := by
  obtain ⟨path, hpath, h⟩ := h
  refine ⟨path, hpath, ?_⟩
  rw [hw.id]
  exact hw.trans h

theorem read {path : String} {heap : HeapId} {nullTerminate compressed : Bool}
    (h : AskedFor p (.read path heap nullTerminate compressed) w) :
    w.nullTerminate = nullTerminate ∧ w.compressed = compressed := by
  obtain ⟨f, -, b, n, h⟩ := h
  rw [h]
  exact ⟨rfl, rfl⟩

end AskedFor

/-- What is known of the bytes of work that is to go through a stage, of a read after the turns `ts`. -/
def Bears (p : Setup σ η κ) (v : View σ η ν) (k : κ) (ts : List (Turn σ κ)) (r : Submission)
    (s : Stage) (w : Work) : Prop :=
  match r, s with
  | .read .., .io => True
  | .read _ _ _ compressed, .compression => compressed = true ∧
      ∃ t ∈ ioTurns ts, t.work.id = w.id ∧
        v.contents t.before.backend (v.file r.path) = some w.buffer.bytes
  | .write _ data compressed, .io => Payload p.codec k data compressed w.buffer.bytes
  | .write _ data compressed, .compression => compressed = true ∧ w.buffer.bytes = data

/-- What is known of work after the submissions `rs` and the turns `ts`. -/
def Told (p : Setup σ η κ) (v : View σ η ν) (k : κ) (rs : List Submission) (ts : List (Turn σ κ))
    (s : Stage) (w : Work) : Prop :=
  ∃ r, rs[w.id]? = some r ∧ AskedFor p r w ∧ Bears p v k ts r s w

theorem Bears.append {r : Submission} {s : Stage} {w : Work} (h : Bears p v k ts r s w)
    (ts' : List (Turn σ κ)) : Bears p v k (ts ++ ts') r s w := by
  cases r <;> cases s
  case read.compression =>
    obtain ⟨hc, t, ht, h⟩ := h
    obtain ⟨ht, hio⟩ := mem_ioTurns.mp ht
    exact ⟨hc, t, mem_ioTurns.mpr ⟨List.mem_append_left _ ht, hio⟩, h⟩
  all_goals exact h

theorem sound_processIo (hb : p.backend.Honest v) {hs : Heaps} {s : σ} {w : Work} (h : v.sound s) :
    v.sound (Stage.processIo p hs s w).state := by
  cases hop : w.op with
  | read => exact (Stage.processIo_read_spec _ hb h hop).sound
  | write => exact (Stage.processIo_write_spec _ hb h hop).sound

theorem sound_effect (hb : p.backend.Honest v) (t : Turn σ κ) {s : σ} (hs : v.sound s) :
    v.sound (t.effect p s) := by
  unfold Turn.effect
  split
  · exact sound_processIo hb hs
  · exact hs

theorem sound_effects (hb : p.backend.Honest v) {s : σ} (hs : v.sound s) :
    v.sound (effects p ts s) :=
  effects_of_processIo (S := v.sound) (fun _ _ _ _ => sound_processIo hb) hs

theorem Recorded.sound (hb : p.backend.Honest v) (hs : v.sound d₀.backend)
    (h : Recorded p d₀ rs ts d) : v.sound d.backend := by
  rw [h.backend_eq]
  exact sound_effects hb hs

theorem account_told (hb : p.backend.Honest v) (hc : p.codec.Pure) (hs : v.sound d₀.backend) :
    Account p d₀ (Told p v k) where
  asked := by
    intro rs ts d r path h hpath
    refine ⟨r, ?_, ⟨path, hpath, ?_⟩, ?_⟩
    · cases r <;> simp [Work.ofSubmission]
    · cases r <;> exact .refl _
    · cases r with
      | read => trivial
      | write path data compressed => cases compressed <;> first | exact rfl | exact ⟨rfl, rfl⟩
  ready := by
    rintro rs ts d s w w' d₁ h hw ⟨r, hr, ha, hB⟩ hp hh
    have hsame := sameAs_of_processing hp
    have hop := ha.op
    refine ⟨r, by rw [hsame.id]; exact hr, ha.sameAs hsame, ?_⟩
    cases s with
    | io =>
      have hres : (Stage.processIo p d.heaps d.backend w).result = .ok () :=
        congrArg (fun x => x.2.2) hp
      have hwork : (Stage.processIo p d.heaps d.backend w).work = w' :=
        congrArg (fun x => x.2.1) hp
      unfold handsOn at hh
      simp only [Bool.and_eq_true, beq_iff_eq] at hh
      have hread : w.op = .read := hsame.op ▸ hh.1
      cases r with
      | write => rw [hread] at hop; cases hop
      | read path heap nullTerminate compressed =>
        obtain ⟨data, b, hdata, hbuf, hdel⟩ :=
          (Stage.processIo_read_spec _ hb (h.sound hb hs) hread).full hres
        refine ⟨?_, ⟨d, .io, w⟩, mem_ioTurns.mpr ⟨List.mem_append_right _ List.mem_cons_self, rfl⟩,
          hsame.id.symm, ?_⟩
        · rw [← ha.read.2, ← hsame.compressed]
          exact hh.2
        · rw [ha.fileOf] at hdata
          rw [← hwork, hbuf]
          show v.contents d.backend _ = some b.bytes
          rw [hdel.bytes]
          exact hdata
    | compression =>
      have hres : (Stage.processCompression p d.heaps d.codec w).result = .ok () :=
        congrArg (fun x => x.2.2) hp
      have hwork : (Stage.processCompression p d.heaps d.codec w).work = w' :=
        congrArg (fun x => x.2.1) hp
      have hwrite : w.op = .write := hsame.op ▸ beq_iff_eq.mp hh
      cases r with
      | read => rw [hwrite] at hop; cases hop
      | write path data compressed =>
        obtain ⟨hcomp, hdata⟩ := hB
        obtain ⟨b, hpack, hbuf, -⟩ :=
          (Stage.processCompression_write_spec _ hc k d.codec hwrite).full hres
        subst hcomp
        rw [hdata] at hpack
        rw [← hwork, hbuf]
        exact hpack
  later := by
    rintro rs ts s w r ⟨r', hr, h⟩
    exact ⟨r', (List.getElem?_append_left (List.getElem?_eq_some_iff.mp hr).1).trans hr, h⟩
  others := by
    rintro rs ts s w t - ⟨r, hr, ha, hB⟩
    exact ⟨r, hr, ha, hB.append _⟩

theorem Told.of_submission {s : Stage} {w : Work} {r : Submission} (h : Told p v k rs ts s w)
    (hr : rs[w.id]? = some r) : AskedFor p r w ∧ Bears p v k ts r s w := by
  obtain ⟨r', hr', h⟩ := h
  obtain rfl := Option.some.inj (hr.symm.trans hr')
  exact h

theorem Recorded.told (hb : p.backend.Honest v) (hc : p.codec.Pure) (hs : v.sound d₀.backend)
    (h₀ : Unused p d₀) (h : Recorded p d₀ rs ts d) {t : Turn σ κ} (ht : t ∈ ts) (k : κ) :
    Told p v k rs ts t.stage t.work := by
  obtain ⟨ts₁, ts₂, rfl⟩ := List.append_of_mem ht
  obtain ⟨rs₁, hrs, r, hr, ha, hB⟩ :=
    (account_told (k := k) hb hc hs).at_turn h₀ h rfl
  refine ⟨r, ?_, ha, hB.append _⟩
  obtain ⟨rs₂, rfl⟩ := hrs
  exact (List.getElem?_append_left (List.getElem?_eq_some_iff.mp hr).1).trans hr

/-! ### Turns -/

/-- What an I/O turn does to the files. -/
theorem touches_of_turn (hb : p.backend.Honest v) {t : Turn σ κ} {r : Submission}
    (hs : v.sound t.before.backend) (hio : t.stage = .io) (ha : AskedFor p r t.work)
    (hB : Bears p v k ts r t.stage t.work) :
    Touches v p.codec k r t.before.backend (t.effect p t.before.backend) := by
  obtain ⟨d, s, w⟩ := t
  obtain rfl : s = .io := hio
  show Touches v p.codec k r d.backend (Stage.processIo p d.heaps d.backend w).state
  cases r with
  | read => exact (Stage.processIo_read_spec _ hb hs ha.op).contents
  | write path data compressed =>
    have hw : Stage.Written _ _ _ _ (Stage.processIo p d.heaps d.backend w) :=
      Stage.processIo_write_spec _ hb hs ha.op
    have hothers := hw.others
    have hfront := hw.front
    rw [ha.fileOf] at hothers hfront
    refine ⟨hothers, ?_⟩
    rcases hfront with hf | ⟨n, hf⟩
    · exact Or.inl hf
    · exact Or.inr ⟨_, n, hB, hf⟩

/-- An I/O turn that ends work well serves what was asked for. -/
theorem serves_of_io (hb : p.backend.Honest v) {w : Work} {r : Submission} (hs : v.sound d.backend)
    (ha : AskedFor p r w) (hB : Bears p v k ts r .io w)
    (hok : (Stage.processIo p d.heaps d.backend w).result = .ok ())
    (hh : handsOn .io (Stage.processIo p d.heaps d.backend w).work = false) :
    Serves v p.codec k r d.backend (Stage.processIo p d.heaps d.backend w).state
      ((Stage.processIo p d.heaps d.backend w).work.outcome (.ok ())) := by
  have hop := ha.op
  cases r with
  | read path heap nullTerminate compressed =>
    obtain ⟨data, b, hdata, hbuf, hdel⟩ := (Stage.processIo_read_spec _ hb hs hop).full hok
    obtain ⟨hn, hcomp⟩ := ha.read
    have hplain : compressed = false := by
      unfold handsOn at hh
      rw [hbuf] at hh
      rw [← hcomp]
      simpa [show w.op = .read from hop] using hh
    subst hplain
    rw [hn, hcomp, Bool.not_false, Bool.and_true] at hdel
    rw [ha.fileOf] at hdata
    rw [hbuf]
    exact ⟨data, b, hdata, rfl, hdel, rfl⟩
  | write path data compressed =>
    have hw : Stage.Written _ _ _ _ (Stage.processIo p d.heaps d.backend w) :=
      Stage.processIo_write_spec _ hb hs hop
    obtain ⟨hall, hwork⟩ := hw.full hok
    have hothers := hw.others
    rw [ha.fileOf] at hall hothers
    rw [hwork]
    exact ⟨_, hB, ⟨hall, hothers⟩, rfl⟩

/-- What a turn has done that ends work well: a read of a frame got its bytes in an earlier one. -/
theorem serves_of_turn (hb : p.backend.Honest v) (hc : p.codec.Pure) {t : Turn σ κ} {r : Submission}
    (hs : v.sound t.before.backend) (ht : t ∈ ts) (ha : AskedFor p r t.work)
    (hB : Bears p v k ts r t.stage t.work) (hok : t.result p = .ok ())
    (hh : handsOn t.stage (t.after p) = false) :
    ∃ u ∈ ioTurns ts, u.work.id = t.work.id ∧
      Serves v p.codec k r u.before.backend (u.effect p u.before.backend)
        ((t.after p).outcome (.ok ())) := by
  obtain ⟨d, s, w⟩ := t
  have hop := ha.op
  cases s with
  | io => exact ⟨⟨d, .io, w⟩, mem_ioTurns.mpr ⟨ht, rfl⟩, rfl, serves_of_io hb hs ha hB hok hh⟩
  | compression =>
    cases r with
    | write path data compressed =>
      have hw : (Stage.processCompression p d.heaps d.codec w).work.op = .write :=
        (Stage.work_processCompression p d.heaps d.codec w).op.trans hop
      have hno : ((Stage.processCompression p d.heaps d.codec w).work.op == .write) = false := hh
      rw [hw] at hno
      cases hno
    | read path heap nullTerminate compressed =>
      obtain ⟨rfl, u, hu, hid, hframe⟩ := hB
      refine ⟨u, hu, hid, ?_⟩
      obtain ⟨data, b, hunpack, hbuf, hdel⟩ :=
        (Stage.processCompression_read_spec d.heaps hc k d.codec hop).full hok
      show Serves v p.codec k _ _ _ ((Stage.processCompression p d.heaps d.codec w).work.outcome
        (.ok ()))
      rw [hbuf]
      rw [ha.read.1] at hdel
      exact ⟨_, data, b, hframe, hunpack, rfl, hdel, rfl⟩

/-! ### Refinement -/

/-- That a run with the submissions `rs` and the turns `ts`, from `d₀` to `d`, is one of a sequential
    file store. -/
structure Refines (p : Setup σ η κ) (v : View σ η ν) (d₀ : Dispatcher σ κ) (rs : List Submission)
    (ts : List (Turn σ κ)) (d : Dispatcher σ κ) : Prop where
  /-- The backend is as the I/O turns leave it if they are had one after the other, -/
  serial : d.backend = effects p (ioTurns ts) d₀.backend
  /-- each on what those before it have left. -/
  turns : ∀ us₁ u us₂, ioTurns ts = us₁ ++ u :: us₂ → u.before.backend = effects p us₁ d₀.backend
  /-- No work has two of them. -/
  once : ((ioTurns ts).map fun u => u.work.id).Nodup
  /-- In each of them the files change as what was submitted allows. -/
  touches : ∀ u ∈ ioTurns ts, ∃ r, rs[u.work.id]? = some r ∧
    Touches v p.codec d₀.codec r u.before.backend (u.effect p u.before.backend)
  /-- Work that succeeded had one, and in it the store did what was asked for; its handle shows the
      outcome that it has there. -/
  answers : ∀ id t, d.tickets[id]? = some t → t.isDone = true → t.result = .ok () →
    ∃ r u o, rs[id]? = some r ∧ u ∈ ioTurns ts ∧ u.work.id = id ∧
      Serves v p.codec d₀.codec r u.before.backend (u.effect p u.before.backend) o ∧ t.Shows o
  /-- A buffer that a handle shows stays until the client takes it or drops the handle. -/
  shown : ∀ d', Move p d d' → ∀ id t t', d.tickets[id]? = some t → d'.tickets[id]? = some t' →
    t.isDone = true → t.outcome.buffer ≠ .none → t'.outcome.buffer = .none →
    d' = (d.take id).2 ∨ d' = d.dropHandle id

/-- A buffer that a ticket shows goes only to the client who asks for it. -/
theorem taken_of_move (m : Move p d d') {id : WorkId} {t t' : Ticket}
    (ht : d.tickets[id]? = some t) (ht' : d'.tickets[id]? = some t') (hd : t.isDone = true)
    (hb : t.outcome.buffer ≠ .none) (hn : t'.outcome.buffer = .none) :
    d' = (d.take id).2 ∨ d' = d.dropHandle id := by
  have kept : t'.outcome = t.outcome → False := fun he => hb (he ▸ hn)
  -- no ticket was exchanged, or another one than this, or this one for one that shows the same
  have same : (d'.tickets = d.tickets ∨ ∃ i u u', d.tickets[i]? = some u ∧
      d'.tickets = d.tickets.set i u' ∧ (i = id → u = t → u'.outcome = t.outcome)) → False := by
    rintro (he | ⟨i, u, u', hu, he, hsame⟩)
    · rw [he, ht] at ht'
      exact kept (congrArg Ticket.outcome (Option.some.inj ht').symm)
    · rw [he] at ht'
      by_cases hi : i = id
      · subst hi
        rw [List.getElem?_set_self (List.getElem?_eq_some_iff.mp ht).1] at ht'
        rw [ht] at hu
        cases ht'
        exact kept (hsame rfl (Option.some.inj hu).symm)
      · rw [List.getElem?_set_ne hi, ht] at ht'
        exact kept (congrArg Ticket.outcome (Option.some.inj ht').symm)
  cases m with
  | act a h =>
    rcases (publishes_of_action (transition_of_step h)).ticket id t ht with hk | ⟨hp, -⟩
    · rw [hk] at ht'
      exact (kept (congrArg Ticket.outcome (Option.some.inj ht').symm)).elim
    · rw [hd] at hp
      cases hp
  | beginHalt =>
    refine (same (Or.inl ?_)).elim
    unfold beginHalt
    split
    · split <;> rfl
    · rfl
  | look i =>
    refine (same ?_).elim
    unfold look
    split
    · next u hu =>
      refine Or.inr ⟨i, u, _, (done?_eq_some hu).1, rfl, fun _ he => ?_⟩
      rw [Ticket.outcome_look, he]
    · exact Or.inl rfl
  | poll i waker =>
    refine (same ?_).elim
    unfold poll
    split
    · next u hu =>
      refine Or.inr ⟨i, u, _, hu, rfl, fun _ he => ?_⟩
      subst he
      rw [Ticket.poll_of_raised (e := u.done) hd]
    · exact Or.inl rfl
  | take i =>
    by_cases hi : i = id
    · exact Or.inl (by rw [hi])
    · refine (same ?_).elim
      unfold take
      split
      · next u hu => exact Or.inr ⟨i, u, _, (done?_eq_some hu).1, rfl, fun h => absurd h hi⟩
      · exact Or.inl rfl
  | dropHandle i =>
    by_cases hi : i = id
    · exact Or.inr (by rw [hi])
    · refine (same ?_).elim
      unfold dropHandle
      split
      · next u hu => exact Or.inr ⟨i, u, _, (done?_eq_some hu).1, rfl, fun h => absurd h hi⟩
      · exact Or.inl rfl
  | dropTaken b => exact (same (Or.inl rfl)).elim

theorem Recorded.sound_at (hb : p.backend.Honest v) (hs : v.sound d₀.backend)
    (h : Recorded p d₀ rs ts d) {t : Turn σ κ} (ht : t ∈ ts) : v.sound t.before.backend := by
  obtain ⟨ts₁, ts₂, rfl⟩ := List.append_of_mem ht
  obtain ⟨rs₁, -, hrec, -⟩ := h.at_turn rfl
  exact hrec.sound hb hs

/-- Work that succeeded had an I/O turn, and its handle shows the outcome that a sequential store has
    there. -/
theorem Recorded.answers (h₀ : Unused p d₀) (hb : p.backend.Honest v) (hs : v.sound d₀.backend)
    (hc : p.codec.Pure) (h : Recorded p d₀ rs ts d) {id : WorkId} {t : Ticket}
    (ht : d.tickets[id]? = some t) (hd : t.isDone = true) (hok : t.result = .ok ()) (k : κ) :
    ∃ r u o, rs[id]? = some r ∧ u ∈ ioTurns ts ∧ u.work.id = id ∧
      Serves v p.codec k r u.before.backend (u.effect p u.before.backend) o ∧ t.Shows o := by
  obtain ⟨o, hshows, hend⟩ := h.ending h₀ ht hd
  have hores : o.result = .ok () := hshows.result.symm.trans hok
  cases hend with
  | unfit | crashed | dropped => cases hores
  | @turn u r hmem hid hres hh =>
    obtain rfl : r = .ok () := hores
    obtain ⟨r, hr, ha, hB⟩ := h.told hb hc hs h₀ hmem k
    obtain ⟨x, hx, hxid, hserves⟩ :=
      serves_of_turn hb hc (h.sound_at hb hs hmem) hmem ha hB hres (hh rfl)
    exact ⟨r, x, _, by rw [← hid]; exact hr, hx, hxid.trans hid, hserves, hshows⟩

/-- Over an honest backend and with a pure codec, whatever is submitted, in whatever order things
    happen, and whatever fails, is refused or crashes, a run is one of a sequential file store. -/
theorem Recorded.refines (h₀ : Fresh p d₀) (hb : p.backend.Honest v) (hs : v.sound d₀.backend)
    (hc : p.codec.Pure) (h : Recorded p d₀ rs ts d) : Refines p v d₀ rs ts d := by
  have hu := h₀.unused
  refine ⟨?_, fun us₁ u us₂ => h.backend_at_io, h.io_once hu, fun u hu' => ?_,
    fun id t ht hd hok => h.answers hu hb hs hc ht hd hok d₀.codec, fun d' m id t t' =>
    taken_of_move m⟩
  · rw [effects_ioTurns]
    exact h.backend_eq
  · obtain ⟨hmem, hio⟩ := mem_ioTurns.mp hu'
    obtain ⟨r, hr, ha, hB⟩ := h.told hb hc hs hu hmem d₀.codec
    exact ⟨r, hr, touches_of_turn hb (h.sound_at hb hs hmem) hio ha hB⟩

/-! ### A write over a slow store -/

open Backend.Scripted (Store slowView slow_initial)

/-- A run up to the I/O turn of a plain write, and how it goes on to that of a read of the same file if
    the write goes well. -/
theorem exists_write_begun : ∃ d₀ d w, lz4? 1 = some d₀ ∧ d₀.backend = {} ∧
    replay (lz4Setup 1) [.submit (.write "f" [1, 2] false), .act (.push 0), .act (.pop .io)] d₀ =
      some d ∧ d.tasks.get .io = .busy w ∧ d.backend = {} ∧ d.heaps = .initial ∧
    d.tickets[0]? = some { op := .write } ∧ w.id = 0 ∧ w.op = .write ∧
    PathField.ofString? "f" = .ok w.path ∧ w.buffer.bytes = [1, 2] ∧
    ∀ s, ∃ d' u, replay (lz4Setup 1)
        [.submit (.read "f" 0 true false), .act (.push 0), .act (.pop .io)]
        (({ d with backend := s } : Dispatcher Store Unit).conclude .io { w with size := 2 }
          (.ok ())) = some d' ∧
      d'.tasks.get .io = .busy u ∧ d'.heaps = .initial ∧ d'.backend = s ∧
      d'.tickets[1]? = some { op := .read } ∧ u.id = 1 ∧ u.op = .read ∧ u.compressed = false ∧
      PathField.ofString? "f" = .ok u.path ∧
      Stage.readTarget (lz4Setup 1) u 2 = (Heaps.systemHeap, 3) :=
  ⟨_, _, _, rfl, rfl, rfl, rfl, rfl, rfl, rfl, rfl, rfl, rfl, rfl,
    fun _ => ⟨_, _, rfl, rfl, rfl, rfl, rfl, rfl, rfl, rfl, rfl, rfl⟩⟩

theorem tickets_conclude {s : Stage} {w : Work} {t : Ticket} (hh : handsOn s w = false)
    (ht : d.tickets[w.id]? = some t) (hd : t.isDone = false) : (d.conclude s w (.ok ())).tickets =
      d.tickets.set w.id (t.publish (w.outcome (.ok ()))) := by
  unfold conclude settle
  rw [hh, ht]
  dsimp only
  rw [hd]
  rfl

/-- The turn goes well: the ticket of the write shows success and its bytes are in the file. -/
theorem exists_written : ∃ d₀ d w d', lz4? 1 = some d₀ ∧ d₀.backend = {} ∧
    replay (lz4Setup 1) [.submit (.write "f" [1, 2] false), .act (.push 0), .act (.pop .io)] d₀ =
      some d ∧ d.tasks.get .io = .busy w ∧ w.id = 0 ∧
    d.step (lz4Setup 1) (.process .io) = some d' ∧
    (⟨d, .io, w⟩ : Turn Store Unit).result (lz4Setup 1) = .ok () ∧
    (∃ t, d'.tickets[0]? = some t ∧ t.isDone = true ∧ t.statusCode = 0) ∧
    d'.backend.Slow ∧ d'.backend.files "f" = some [1, 2] ∧
    ∃ d'' u, replay (lz4Setup 1)
        [.submit (.read "f" 0 true false), .act (.push 0), .act (.pop .io)] d' = some d'' ∧
      d''.tasks.get .io = .busy u ∧ d''.heaps = .initial ∧ d''.backend = d'.backend ∧
      d''.tickets[1]? = some { op := .read } ∧ u.id = 1 ∧ u.op = .read ∧ u.compressed = false ∧
      PathField.ofString? "f" = .ok u.path ∧
      Stage.readTarget (lz4Setup 1) u 2 = (Heaps.systemHeap, 3) := by
  obtain ⟨d₀, d, w, h₀, hb₀, hr, hw, hb, hheaps, ht, hid, hop, hpath, hbytes, hnext⟩ :=
    exists_write_begun
  have hpath := PathField.text_of_ofString? hpath
  have hwritten := Stage.processIo_write_spec (p := lz4Setup 1) d.heaps
    Backend.Scripted.honest (show slowView.sound d.backend by rw [hb]; exact slow_initial) hop
  have hok := hwritten.served (Backend.Scripted.reliable _) ⟨"f", by rw [hpath]; rfl⟩
    (by rw [hbytes]; decide)
  obtain ⟨hall, hwork⟩ := hwritten.full hok
  rw [hbytes] at hall hwork
  have hstep : d.step (lz4Setup 1) (.process .io) =
      some (({ d with backend := (Stage.processIo (lz4Setup 1) d.heaps d.backend w).state } :
        Dispatcher Store Unit).conclude .io { w with size := 2 } (.ok ())) := by
    refine (process_busy hw).trans ?_
    unfold processing
    dsimp only
    rw [hok, hwork, Stage.heaps_processIo_write _ _ _ hop]
    rfl
  have hh : handsOn .io { w with size := 2 } = false := by
    unfold handsOn
    rw [hop]
    rfl
  refine ⟨d₀, d, w, _, h₀, hb₀, hr, hw, hid, hstep, hok, ?_, ?_, ?_, ?_⟩
  · rw [tickets_conclude hh (by rw [← ht, ← hid]) rfl, hid]
    exact ⟨_, List.getElem?_set_self (List.getElem?_eq_some_iff.mp ht).1, rfl, rfl⟩
  · rw [backend_conclude]
    exact hwritten.sound
  · rw [backend_conclude]
    rw [show Stage.fileOf slowView w = "f" from hpath] at hall
    exact hall
  · rw [backend_conclude]
    exact hnext _

theorem refines_after_write :
    ∃ d₀ d ts, Fresh (lz4Setup 1) d₀ ∧ Recorded (lz4Setup 1) d₀ [.write "f" [1, 2] false] ts d ∧
      (∃ t, d.tickets[0]? = some t ∧ t.isDone = true ∧ t.statusCode = 0) ∧
      d.backend.files "f" = some [1, 2] ∧
      Refines (lz4Setup 1) slowView d₀ [.write "f" [1, 2] false] ts d := by
  obtain ⟨d₀, d, w, d', h₀, hb₀, hr, hw, -, hstep, -, hdone, -, hfile, -⟩ := exists_written
  obtain ⟨ts, hts⟩ := (run_of_replay hr).recorded
  have hfresh : Fresh (lz4Setup 1) d₀ := fresh_of_start h₀
  exact ⟨d₀, d', _, hfresh, hts.turn hw hstep, hdone, hfile,
    Recorded.refines hfresh Backend.Scripted.honest (by rw [hb₀]; exact slow_initial)
      Codec.pure_lz4 (hts.turn hw hstep)⟩

end Dispatcher

end FilePipeline
