import FilePipeline.Proofs.Dispatcher.Alone
import FilePipeline.Proofs.Stage.Crashes
import FilePipeline.Proofs.Stage.Effects

/-! # What a write leaves in its file

A write that is alone on its file (`Alone`) ends either without having opened the file, and then it has
failed and the file is as it was; or the file was opened in its I/O turn, and holds as much as the calls
of the backend have taken then. It succeeds exactly if that is everything
(`Alone.write_effect`). Codec and memory may fail or crash at will, other work may do anything to other
files, and nothing hangs on what closing the file answers.

A turn after which work is not handed on ends it, and its ticket shows from then on what the turn has
made of it (`Recorded.shown_of_turn`). -/

namespace FilePipeline.Dispatcher

open Backend (Honest KeepsUnopened)
open Stage (fileOf Opened Opens)

variable {σ η κ ν : Type} {p : Setup σ η κ} {v : View σ η ν} {d d' d₀ : Dispatcher σ κ}
  {rs rs' : List Submission} {ts ts' : List (Turn σ κ)} {path : String} {data : List UInt8}
  {compressed : Bool}

/-! ### Turns that end work -/

/-- The result with which work ends in a turn after which it is not handed on. -/
def Turn.verdict (p : Setup σ η κ) (u : Turn σ κ) : Except WorkError Unit :=
  match u.result p with
  | .ok () => .ok ()
  | .error (.error e) => .error e
  | .error (.crash _) => .error .abandoned

theorem Turn.verdict_eq_ok {u : Turn σ κ} : u.verdict p = .ok () ↔ u.result p = .ok () := by
  unfold verdict
  rcases u.result p with (e | c) | ⟨⟩ <;> simp

theorem Turn.ofExcept_verdict {u : Turn σ κ} (hcalm : u.crashed p = false) :
    Attempt.ofExcept (u.verdict p) = u.result p := by
  unfold crashed at hcalm
  unfold verdict
  rcases hr : u.result p with (e | c) | ⟨⟩
  · rfl
  · rw [hr] at hcalm
    cases hcalm
  · rfl

theorem conclude_of_not_readied {u : Turn σ κ} (hr : u.readied p = false) (d : Dispatcher σ κ) :
    ∃ t, d.conclude u.stage (u.after p) (u.result p) =
      (d.settle (u.after p) (u.verdict p)).setTask u.stage t := by
  unfold Turn.readied at hr
  unfold conclude Turn.verdict
  rcases he : u.result p with (e | c) | ⟨⟩
  · exact ⟨.idle, rfl⟩
  · exact ⟨.leaving true, rfl⟩
  · rw [he] at hr
    dsimp only at hr ⊢
    rw [hr]
    exact ⟨.idle, rfl⟩

/-- The turn that ends a piece of work publishes what it has made of it. -/
theorem published_of_turn {s : Stage} {w : Work} (hb : d.InBalance) (hw : d.tasks.get s = .busy w)
    (hs : d.step p (.process s) = some d') (hr : (⟨d, s, w⟩ : Turn σ κ).readied p = false) :
    ∃ t, t.Consistent ∧ t.isDone = false ∧ d.tickets[w.id]? = some t ∧ d'.tickets[w.id]? =
      some (t.publish ((Turn.after p ⟨d, s, w⟩).outcome (Turn.verdict p ⟨d, s, w⟩))) := by
  obtain ⟨t, ht, hp, -⟩ := hb.pending_of_mem (mem_held (mem_worksOf_worker hw List.mem_cons_self))
  have hc := hb.consistent t (List.mem_of_getElem? ht)
  have hid : (Turn.after p ⟨d, s, w⟩).id = w.id := (Turn.after_sameAs p ⟨d, s, w⟩).id
  refine ⟨t, hc, hp, ht, ?_⟩
  obtain ⟨d₂, w', r, hproc, rfl⟩ := turn_cases hw hs
  obtain rfl := Turn.after_eq (t := ⟨d, s, w⟩) hproc
  obtain rfl := Turn.result_eq (t := ⟨d, s, w⟩) hproc
  obtain ⟨task, he⟩ := conclude_of_not_readied hr d₂
  have htickets := (untouched_of_processing hproc).tickets
  rw [he]
  show (d₂.settle _ _).tickets[w.id]? = _
  rw [settle_of_pending (t := t) (by rw [htickets, hid]; exact ht) hp, hid, htickets]
  exact List.getElem?_set_self (List.getElem?_eq_some_iff.mp ht).1

theorem Recorded.shown_of_turn (h₀ : Unused p d₀) (h : Recorded p d₀ rs ts d) {u : Turn σ κ}
    (hu : u ∈ ts) (hr : u.readied p = false) : ∃ t, d.tickets[u.work.id]? = some t ∧
      t.isDone = true ∧ t.Shows ((u.after p).outcome (u.verdict p)) ∧
      t.Retains (u.after p).buffer := by
  obtain ⟨ts₁, ts₂, rfl⟩ := List.append_of_mem hu
  obtain ⟨rs₁, rs₂, d₁, -, hbefore, hw, hs, hlater⟩ := h.split rfl
  obtain ⟨t, hc, hp, -, hend⟩ := published_of_turn (hbefore.run.balanced h₀.inBalance) hw hs hr
  refine hlater.run.lasts (P := fun t => t.Shows ((u.after p).outcome (u.verdict p)) ∧
    t.Retains (u.after p).buffer) (fun _ _ _ hd h hc => ⟨h.1.change hd hc, h.2.change hd hc⟩) hend ?_
    ⟨hc.shows_publish hp _, fun _ => Or.inr ?_⟩
  · rw [hc.publish_of_pending hp]
    rfl
  · rw [hc.outcome_publish hp]
    rfl

/-! ### The buffer of a write -/

theorem Turn.HandsOn.bytes? {c : Turn σ κ} {w : Work} (h : c.HandsOn p .io w) :
    w.buffer.bytes? = some w.buffer.bytes := by
  have hw := h.work
  have hok := (Turn.readied_iff.mp h.readied).1
  have hop : c.stage = .compression ∧ c.work.op = .write := by
    rcases Turn.op_of_readied h.readied with ⟨hs, -⟩ | hop
    · have hstage := h.stage
      rw [hs] at hstage
      cases hstage
    · exact hop
  obtain ⟨d₁, s, w₁⟩ := c
  obtain ⟨rfl, hop⟩ := hop
  have hop : w₁.op = .write := hop
  have hafter : w = (Stage.processCompression p d₁.heaps d₁.codec w₁).work := hw
  have hok : (Stage.processCompression p d₁.heaps d₁.codec w₁).result = .ok () := hok
  rw [Stage.processCompression_write p d₁.heaps d₁.codec hop] at hafter hok
  rcases Stage.compress_cases p d₁.heaps d₁.codec w₁ with ⟨-, b₀, n, b, -, -, hb⟩ | ⟨⟨f, hf⟩, -⟩
  · rw [hafter, hb]
    rfl
  · rw [hf] at hok
    cases hok

theorem Recorded.bytes?_of_write (h₀ : Unused p d₀) (h : Recorded p d₀ rs ts d) {u : Turn σ κ}
    (hu : u ∈ ts) (hio : u.stage = .io) (hr : rs[u.work.id]? = some (.write path data compressed)) :
    u.work.buffer.bytes? = some u.work.buffer.bytes := by
  have ho := h.origin h₀ hu
  rw [hio] at ho
  rcases ho with ho | ⟨c, -, hon, -⟩
  · rw [ho.payload hr]
    rfl
  · exact hon.bytes?

/-! ### The file -/

/-- What has come of a write that was to put `bytes` into a file, which was opened with the state `s` and
    the handle `h`, if the file is `is` in the end and the ticket `t`. -/
structure Transferred (b : Backend σ η) (s : σ) (h : η) (bytes : List UInt8)
    (is : Option (List UInt8)) (t : Ticket) : Prop where
  /-- The file holds what the calls of the backend have taken, -/
  contents : is = some (bytes.take (b.chunks s h bytes).sum)
  /-- which is not everything if the write has failed. -/
  short : t.result ≠ .ok () → (b.chunks s h bytes).sum < bytes.length
  whole : t.result = .ok () ↔ is = some bytes
  size : t.result = .ok () → t.size = bytes.length
  buffer : t.result = .ok () → t.dropped = false → t.buffer = some bytes
  /-- Whatever closing the file answers, the write ends as the transfer has ended. -/
  verdict : Attempt.ofExcept t.result =
    (Attempt.mapError .io (b.writeFull s h bytes).result).map fun _ => ()

/-- What the write of `data` with a number has done when it has ended with the ticket `t`, if its file
    was `was` before and is `is` then. -/
structure WriteEffect (p : Setup σ η κ) (ts : List (Turn σ κ)) (id : WorkId) (data : List UInt8)
    (compressed : Bool) (was is : Option (List UInt8)) (t : Ticket) : Prop where
  /-- If the file was not opened, the write has failed and the file is as it was. -/
  unopened : (∀ u ∈ ioTurns ts, u.work.id = id → ¬ Opens p u.before.backend u.work) →
    t.result ≠ .ok () ∧ is = was
  /-- If it was, it holds of what was made of `data` as much as was taken. -/
  taken : ∀ u ∈ ioTurns ts, u.work.id = id → ∀ s h, Opened p u.before.backend u.work s h →
    ∃ bytes, Made p ts id data compressed bytes ∧ Transferred p.backend s h bytes is t
  /-- The write has succeeded only if the file was opened. -/
  opened : t.result = .ok () → ∃ u ∈ ioTurns ts, u.work.id = id ∧ Opens p u.before.backend u.work

namespace Alone

section

variable (h₀ : Unused p d₀) (hb : p.backend.Honest v) (hs : v.sound d₀.backend)
  (h : Alone p v d₀ rs ts d (.write path data compressed) rs' ts' d')

include h₀ hb hs h

theorem untouched {us us' : List (Turn σ κ)} (hts : ts' = us ++ us')
    (hno : ∀ u ∈ us, u.stage = .io → u.work.id ≠ rs.length) :
    v.contents (effects p us d.backend) (v.file path) = v.contents d.backend (v.file path) := by
  refine contents_effects hb (h.before.sound hb hs) fun u hu hio _ => ?_
  exact h.file_ne h₀ (by rw [hts]; exact List.mem_append_left _ hu) (hno u hu hio)

/-- What the I/O turn of the write has found and left. -/
theorem around {u : Turn σ κ} (hu : u ∈ ioTurns ts') (hid : u.work.id = rs.length) :
    v.contents u.before.backend (v.file path) = v.contents d.backend (v.file path) ∧
      v.contents d'.backend (v.file path) =
        v.contents (Stage.processIo p u.before.heaps u.before.backend u.work).state (v.file path) := by
  obtain ⟨hmem, hio⟩ := mem_ioTurns.mp hu
  have hleft := h.left h₀ hb hs (mem_ioTurns.mpr ⟨List.mem_append_right ts hmem, hio⟩) hid
  obtain ⟨us, us', rfl⟩ := List.append_of_mem hmem
  constructor
  · rw [h.backend_at rfl]
    refine h.untouched h₀ hb hs rfl fun x hx hxio hxid => ?_
    -- the write has no I/O turn before that one
    obtain ⟨ys, zs, rfl⟩ := List.append_of_mem hx
    have hrec := h.recorded
    rw [show ts ++ ((ys ++ x :: zs) ++ u :: us') = (ts ++ ys) ++ x :: (zs ++ u :: us') by simp] at hrec
    refine hrec.id_ne_of_later h₀ hxio (List.mem_append_right _ List.mem_cons_self) hio ?_
    rw [hid, hxid]
  · refine hleft.trans ?_
    unfold Turn.effect
    rw [hio]
    rfl

theorem kept_of_unopened (hk : p.backend.KeepsUnopened v) {u : Turn σ κ} (hu : u ∈ ioTurns ts')
    (hid : u.work.id = rs.length) (hno : ¬ Opens p u.before.backend u.work)
    (hcalm : u.crashed p = false) :
    v.contents d'.backend (v.file path) = v.contents d.backend (v.file path) ∧
      u.result p ≠ .ok () := by
  obtain ⟨hmem, hio⟩ := mem_ioTurns.mp hu
  have hall := List.mem_append_right ts hmem
  have ha := h.asked h₀ hall hid
  have hsound := h.recorded.sound_at hb hs hall
  obtain ⟨hfound, hleft⟩ := h.around h₀ hb hs hu hid
  obtain ⟨d₁, s, w⟩ := u
  obtain rfl : s = .io := hio
  obtain ⟨hkept, hfailed⟩ := Stage.kept_of_not_opened d₁.heaps hk hsound ha.op hno hcalm
  rw [ha.fileOf] at hkept
  exact ⟨hleft.trans (hkept.trans hfound), hfailed⟩

/-- A write whose file is opened in its I/O turn. -/
theorem taken_of_opened {u : Turn σ κ} (hu : u ∈ ioTurns ts') (hid : u.work.id = rs.length)
    {s : σ} {x : η} (ho : Opened p u.before.backend u.work s x) (hcalm : u.crashed p = false)
    {t : Ticket} (ht : d'.tickets[rs.length]? = some t) :
    ∃ bytes, Made p (ts ++ ts') rs.length data compressed bytes ∧
      Transferred p.backend s x bytes (v.contents d'.backend (v.file path)) t := by
  obtain ⟨hmem, hio⟩ := mem_ioTurns.mp hu
  have hall := List.mem_append_right ts hmem
  have hrec := h.recorded
  have hasked : (rs ++ .write path data compressed :: rs')[u.work.id]? =
      some (.write path data compressed) := by
    rw [hid]
    exact getElem?_submission _ _ _
  have ha := (hrec.origin h₀ hall).of_submission hasked
  have hmade := hrec.made h₀ hall hio hasked
  have hbytes := hrec.bytes?_of_write h₀ hall hio hasked
  have hsound := hrec.sound_at hb hs hall
  obtain ⟨-, hleft⟩ := h.around h₀ hb hs hu hid
  -- the ticket shows what the turn has made of the work
  have hlast : u.readied p = false := by
    rw [← Bool.not_eq_true]
    intro hr
    rcases Turn.op_of_readied hr with ⟨-, hread, -⟩ | ⟨hs, -⟩
    · cases ha.op.symm.trans hread
    · cases hio.symm.trans hs
  obtain ⟨t', ht', -, hshows, hretains⟩ := hrec.shown_of_turn h₀ hall hlast
  rw [hid, ht] at ht'
  obtain rfl := Option.some.inj ht'
  have hres : t.result = u.verdict p := hshows.result
  have htop : t.op = .write := hrec.run.ticket_op h₀.tickets (by rw [hid]; exact ht) hasked
  rw [hid] at hmade
  obtain ⟨d₁, s', w⟩ := u
  obtain rfl : s' = .io := hio
  have heffect : Stage.Effect v w (p.backend.chunks s x w.buffer.bytes).sum
      (p.backend.writeFull s x w.buffer.bytes).result
      (Stage.processIo p d₁.heaps d₁.backend w) :=
    Stage.effect_of_opened d₁.heaps hb hsound ha.op ho hcalm
  have hheld := heffect.contents
  rw [ha.fileOf] at hheld
  have hheld := hleft.trans hheld
  have hok : t.result = .ok () ↔
      (p.backend.chunks s x w.buffer.bytes).sum = w.buffer.bytes.length := by
    rw [hres, Turn.verdict_eq_ok]
    exact heffect.whole
  have hle := heffect.le
  have hafter : t.result = .ok () →
      Turn.after p ⟨d₁, .io, w⟩ = { w with size := w.buffer.bytes.length } := by
    intro htok
    have hturn : Turn.result p ⟨d₁, .io, w⟩ = .ok () := Turn.verdict_eq_ok.mp (hres ▸ htok)
    exact ((Stage.processIo_write_spec d₁.heaps hb hsound ha.op).full hturn).2
  refine ⟨w.buffer.bytes, hmade, hheld, fun hne => ?_, ?_, fun htok => ?_, fun htok hdrop => ?_, ?_⟩
  · exact Nat.lt_of_le_of_ne hle fun he => hne (hok.mpr he)
  · rw [hok, hheld]
    refine ⟨fun he => by rw [he, List.take_length], fun he => ?_⟩
    have hlen := congrArg List.length (Option.some.inj he)
    rw [List.length_take] at hlen
    omega
  · have hshown := hshows.size
    rw [hafter htok] at hshown
    exact hshown
  · rcases hretains htop with hdropped | hbuffer
    · rw [hdrop] at hdropped
      cases hdropped
    · rw [hafter htok] at hbuffer
      unfold Ticket.buffer
      rw [show t.look.1.result = .ok () from htok, show t.look.1.buffer = w.buffer from hbuffer]
      exact hbytes
  · rw [hres, Turn.ofExcept_verdict hcalm]
    exact heffect.result

end

end Alone

/-- What a write leaves in its file, however its turns go, if no call of the backend crashes in its own
    I/O turn: the file is as it was if it was not opened, and else holds what the backend has taken. -/
theorem Alone.write_effect (h₀ : Fresh p d₀) (hb : p.backend.Honest v)
    (hk : p.backend.KeepsUnopened v) (hs : v.sound d₀.backend)
    (h : Alone p v d₀ rs ts d (.write path data compressed) rs' ts' d')
    (hcalm : ∀ u ∈ ioTurns ts', u.work.id = rs.length → u.crashed p = false) {t : Ticket}
    (ht : d'.tickets[rs.length]? = some t) (hd : t.isDone = true) :
    WriteEffect p (ts ++ ts') rs.length data compressed
      (v.contents d.backend (v.file path)) (v.contents d'.backend (v.file path)) t := by
  have h₀ := h₀.unused
  have hrec := h.recorded
  have hmine : ∀ u ∈ ioTurns (ts ++ ts'), u.work.id = rs.length → u ∈ ioTurns ts' := by
    intro u hu hid
    obtain ⟨hmem, hio⟩ := mem_ioTurns.mp hu
    exact mem_ioTurns.mpr ⟨h.mem_of_id h₀ hmem hid, hio⟩
  have hopened : t.result = .ok () →
      ∃ u ∈ ioTurns (ts ++ ts'), u.work.id = rs.length ∧ Opens p u.before.backend u.work := by
    intro hok
    obtain ⟨u, hu, hid, hres⟩ := hrec.io_of_ok h₀ ht hd hok
    refine ⟨u, hu, hid, by_contra fun hno => ?_⟩
    have hu := hmine u hu hid
    exact (h.kept_of_unopened h₀ hb hs hk hu hid hno (hcalm u hu hid)).2 hres
  refine ⟨fun hno => ⟨fun hok => ?_, ?_⟩, fun u hu hid s x ho => ?_, hopened⟩
  · obtain ⟨u, hu, hid, hopens⟩ := hopened hok
    exact hno u hu hid hopens
  · by_cases hturn : ∃ u ∈ ioTurns ts', u.work.id = rs.length
    · obtain ⟨u, hu, hid⟩ := hturn
      obtain ⟨hmem, hio⟩ := mem_ioTurns.mp hu
      have hopens := hno u (mem_ioTurns.mpr ⟨List.mem_append_right ts hmem, hio⟩) hid
      exact (h.kept_of_unopened h₀ hb hs hk hu hid hopens (hcalm u hu hid)).1
    · -- it never came to the I/O stage
      rw [h.after.backend_eq, backend_submit]
      refine h.untouched h₀ hb hs (List.append_nil _).symm fun u hu hio hid => ?_
      exact hturn ⟨u, mem_ioTurns.mpr ⟨hu, hio⟩, hid⟩
  · have hu := hmine u hu hid
    exact h.taken_of_opened h₀ hb hs hu hid ho (hcalm u hu hid) ht

open Backend.Scripted (Store viewOf Faults.Truthful kind_truthful honest_viewOf)

/-- A store in which a file is there already, takes five bytes and no more, and cannot be closed. -/
def breakingStore : Store :=
  (({} : Store).put "f" [9]).setFaults "f"
    { writes := [.atMost 5, .fail (.os 5)], close := some (.os 6) }

theorem truthful_breakingStore (path : String) : (breakingStore.faults path).Truthful := by
  refine Backend.Scripted.setFaults_faults (fun _ => ?_) ?_ path
  · exact ⟨(fun n h => by cases h), (fun m h => by cases h), fun m h => by cases h⟩
  · refine ⟨(fun n h => by cases h), (fun m h => by cases h), fun m h n => ?_⟩
    rcases List.mem_cons.mp h with rfl | h
    · simp
    · obtain rfl := List.mem_singleton.mp h
      simp

/-- Of a frame of six bytes it takes five. -/
theorem processIo_breakingStore (hs : Heaps) {w : Work} (hop : w.op = .write)
    (hpath : w.path.text = "f") (hbytes : w.buffer.bytes = [2, 0, 0, 0, 1, 2]) :
    (Stage.processIo (scriptedSetup 1 {}) hs breakingStore w).result =
        Attempt.fail (.io (.os 5)) ∧
      (Stage.processIo (scriptedSetup 1 {}) hs breakingStore w).state.files "f" =
        some [2, 0, 0, 0, 1] := by
  let opened := (Backend.Scripted.openFile breakingStore "f" .createTruncate).state
  have ho : Opened (scriptedSetup 1 {}) breakingStore w opened ⟨"f", 0⟩ :=
    ⟨"f", by rw [hpath]; rfl, rfl, rfl⟩
  obtain ⟨hstate, hresult⟩ := Stage.processIo_write_eq (scriptedSetup 1 {}) hs breakingStore hop
  rw [Stage.withFile_of_opened ho] at hstate hresult
  -- the first call takes five bytes, the second one none
  have hfirst : Backend.Scripted.backend.writeFull opened ⟨"f", 0⟩ [2, 0, 0, 0, 1, 2] =
      Backend.Scripted.backend.writeFrom _ _ [2, 0, 0, 0, 1, 2] 5 :=
    Backend.writeFrom_of_continues (by decide) (.moved 4 rfl (by decide) rfl)
  have hsecond := hfirst.trans
    (Backend.writeFrom_of_halts (by decide) (.failed (.error (.os 5)) rfl rfl rfl))
  rw [hstate, hresult]
  unfold Stage.writeContents
  rw [hbytes]
  dsimp only [scriptedSetup]
  rw [hsecond]
  exact ⟨rfl, rfl⟩

/-- What happens outside of the I/O stage leaves the backend as it is. -/
theorem backend_of_replay {cs : List Cue} (hq : Cue.act (.process .io) ∉ cs)
    (h : replay p cs d = some d') : d'.backend = d.backend := by
  induction cs generalizing d with
  | nil => exact congrArg _ (Option.some.inj h).symm
  | cons c cs ih =>
    have ih := fun {d₁ : Dispatcher σ κ} (h : replay p cs d₁ = some d') =>
      ih (fun hc => hq (List.mem_cons_of_mem _ hc)) h
    cases c with
    | submit r => exact (ih (replay_submit h).2).trans (backend_submit r)
    | act a =>
      unfold replay at h
      split at h
      · next d₁ hs =>
        refine (ih h).trans ?_
        have htr := transition_of_step hs
        by_cases ha : a = .process .compression
        · subst ha
          cases htr with
          | readied hw | ended hw | crashed hw => exact backend_of_turn hw hs
        · refine backend_of_transition htr fun s he => ?_
          cases s with
          | io => exact hq (he ▸ List.mem_cons_self)
          | compression => exact ha he
      · cases h

/-- Whether the I/O worker is about to write these bytes to `f`, and the other one has not crashed. -/
def writesNext (bytes : List UInt8) (d : Dispatcher Store Unit) : Bool :=
  match d.tasks.io with
  | .busy w => d.tasks.compression.crashed = false ∧ w.id = 0 ∧ w.op = .write ∧ w.path.text = "f" ∧
      w.buffer.bytes = bytes
  | _ => false

/-- A run up to the turn in which the frame of two bytes is to be written to that store. -/
theorem exists_breaking : ∃ d₀ d w, Fresh (scriptedSetup 1 {}) d₀ ∧ d₀.backend = breakingStore ∧
    Run (scriptedSetup 1 {}) (d₀.submit (scriptedSetup 1 {}) (.write "f" [1, 2] true)) [] d ∧
    d.tasks.get .io = .busy w ∧ d.tasks.compression.crashed = false ∧ d.backend = breakingStore ∧
    w.id = 0 ∧ w.op = .write ∧ w.path.text = "f" ∧ w.buffer.bytes = [2, 0, 0, 0, 1, 2] := by
  let cues : List Cue :=
    [.act (.push 0), .act (.pop .compression), .act (.process .compression),
      .act (.hand .compression), .act (.pop .io)]
  have h : ((scripted? 1 {} breakingStore).bind fun d₀ =>
      replay (scriptedSetup 1 {}) cues (d₀.submit (scriptedSetup 1 {}) (.write "f" [1, 2] true))).any
      (writesNext [2, 0, 0, 0, 1, 2]) = true := by
    decide +kernel
  obtain ⟨d₀, h₀, hb₀⟩ :
      ∃ d₀, scripted? 1 {} breakingStore = some d₀ ∧ d₀.backend = breakingStore := ⟨_, rfl, rfl⟩
  obtain ⟨d, hr, hend⟩ := Option.any_eq_true _ _ |>.mp h
  rw [h₀] at hr
  have hr : replay (scriptedSetup 1 {}) cues
      (d₀.submit (scriptedSetup 1 {}) (.write "f" [1, 2] true)) = some d := hr
  have hb := (backend_of_replay (by simp [cues]) hr).trans ((backend_submit _).trans hb₀)
  unfold writesNext at hend
  split at hend
  · next w hw =>
    obtain ⟨hc, hid, hop, hpath, hbytes⟩ := of_decide_eq_true hend
    exact ⟨d₀, d, w, fresh_scripted h₀, hb₀, run_of_replay hr, hw, hc, hb, hid, hop, hpath, hbytes⟩
  · cases hend

/-- A compressed write of two bytes is broken off one byte before the end of its frame. -/
theorem write_effect_of_breaking : ∃ d₀ d ts t, Fresh (scriptedSetup 1 {}) d₀ ∧
    Alone (scriptedSetup 1 {}) (viewOf Faults.Truthful) d₀ [] [] d₀ (.write "f" [1, 2] true) [] ts d ∧
    (∀ u ∈ ioTurns ts, u.work.id = 0 → u.crashed (scriptedSetup 1 {}) = false) ∧
    d.tickets[0]? = some t ∧ t.isDone = true ∧
    WriteEffect (scriptedSetup 1 {}) ts 0 [1, 2] true (some [9]) (some [2, 0, 0, 0, 1]) t := by
  obtain ⟨d₀, d₁, w, hfresh, hb₀, hrun, hw, hidle, hb₁, hid, hop, hpath, hbytes⟩ := exists_breaking
  obtain ⟨hresult, hfile⟩ := processIo_breakingStore d₁.heaps hop hpath hbytes
  rw [← hb₁] at hresult hfile
  obtain ⟨ts, hts⟩ := hrun.recorded
  have h₀ := hfresh.unused
  let last : Turn Store Unit := ⟨d₁, .io, w⟩
  have hfails : last.result (scriptedSetup 1 {}) = Attempt.fail (.io (.os 5)) := hresult
  obtain ⟨d, hstep⟩ : ∃ d, d₁.step (scriptedSetup 1 {}) (.process .io) = some d :=
    ⟨_, process_busy hw⟩
  have halone : Alone (scriptedSetup 1 {}) (viewOf Faults.Truthful) d₀ [] [] d₀
      (.write "f" [1, 2] true) [] (ts ++ [last]) d :=
    ⟨.start, h₀.halt, hts.turn hw hstep, (fun id r t hr => by cases hr),
      fun r hr => by cases hr⟩
  -- before that turn both workers are still there
  have hbefore := ((Recorded.start.submit (.write "f" [1, 2] true) h₀.halt).trans hts).crash_free h₀
    fun s => by
      cases s
      · exact congrArg Task.crashed hw
      · exact hidle
  have hcalm : ∀ u ∈ ioTurns (ts ++ [last]), u.work.id = 0 →
      u.crashed (scriptedSetup 1 {}) = false := by
    intro u hu _
    rcases List.mem_append.mp (mem_ioTurns.mp hu).1 with hu | hu
    · exact hbefore u hu
    · obtain rfl := List.mem_singleton.mp hu
      unfold Turn.crashed
      rw [hfails]
      rfl
  have hlast : last.readied (scriptedSetup 1 {}) = false := by
    unfold Turn.readied
    rw [hfails]
    rfl
  obtain ⟨t, ht, hd, -⟩ := halone.recorded.shown_of_turn h₀ (u := last) (by simp) hlast
  rw [show last.work.id = 0 from hid] at ht
  have hwas : (viewOf Faults.Truthful).contents d₀.backend "f" = some [9] := by
    rw [hb₀]
    rfl
  have hleft : (viewOf Faults.Truthful).contents d.backend "f" = some [2, 0, 0, 0, 1] := by
    rw [backend_of_turn hw hstep]
    exact hfile
  have heffect : WriteEffect (scriptedSetup 1 {}) (ts ++ [last]) 0 [1, 2] true
      ((viewOf Faults.Truthful).contents d₀.backend "f")
      ((viewOf Faults.Truthful).contents d.backend "f") t :=
    halone.write_effect hfresh (honest_viewOf kind_truthful) (Backend.Scripted.keepsUnopened _)
      (by rw [hb₀]; exact truthful_breakingStore) hcalm ht hd
  rw [hwas, hleft] at heffect
  exact ⟨d₀, d, _, t, hfresh, halone, hcalm, ht, hd, heffect⟩

end FilePipeline.Dispatcher
