import FilePipeline.Proofs.Dispatcher.Accounted
import FilePipeline.Proofs.Dispatcher.Terminators
import FilePipeline.Proofs.Dispatcher.Unframing
import FilePipeline.Proofs.Stage.Requests

/-! # What compressed reads cost

Heaps are asked for memory in turns only (`Recorded.asked`). A compressed read has a turn at the I/O stage,
and at most one at the compression stage after it (`Recorded.turns_of_read`). In the first it asks the
pipeline's own heap for as much as the file is said to hold; in the second it asks the caller's heap, if the
header was found plausible, and gives its first block back in any case. So a file that is no frame costs the
caller nothing, and one that claims to be a large frame costs no more than it could hold
(`Recorded.frugal`). -/

namespace FilePipeline.Dispatcher

open Stage (HasLoaded toldSize? readDemand ownDemand payloadDemand ioDemands compressionDemands)

variable {σ η κ : Type} {p : Setup σ η κ} {d d' d₁ d₀ : Dispatcher σ κ} {rs : List Submission}
  {ts : List (Turn σ κ)} {id : WorkId} {s : Stage} {w w' : Work} {t u x : Turn σ κ} {path : String}
  {heap : HeapId} {nullTerminate : Bool}

/-! ### Requests -/

/-- The dispatcher when the stage is done with the work, before anything follows from that. -/
def Turn.midway (p : Setup σ η κ) (t : Turn σ κ) : Dispatcher σ κ :=
  (t.before.processing p t.stage t.work).1

/-- What heaps are asked for in a turn. -/
def Turn.demands (p : Setup σ η κ) (t : Turn σ κ) : List Demand :=
  match t.stage with
  | .io => ioDemands p t.before.backend t.work
  | .compression => compressionDemands p t.before.codec t.work

theorem Turn.asked (p : Setup σ η κ) (t : Turn σ κ) :
    t.before.heaps.Asked (t.demands p) (t.midway p).heaps := by
  obtain ⟨d, s, w⟩ := t
  cases s with
  | io => exact Stage.asked_processIo p d.heaps d.backend w
  | compression => exact Stage.asked_processCompression p d.heaps d.codec w

theorem InBalance.heaps_conclude (hb : d.InBalance) {r : Attempt WorkError Unit}
    (hw : d.tasks.get s = .busy w) (hp : d.processing p s w = (d₁, w', r)) :
    (d₁.conclude s w' r).heaps = d₁.heaps := by
  rcases d₁.conclude_cases s w' r with ⟨-, -, he⟩ | ⟨-, e, he⟩
  · rw [he]
    rfl
  · rw [he]
    exact (hb.custody_process hw (by split <;> rfl) hp).1

/-- Besides turns, nothing asks heaps for anything. -/
theorem InBalance.asked_of_move (hb : d.InBalance) (m : Move p d d')
    (stay : ∀ s w, d.tasks.get s = .busy w → d'.tasks.get s = .busy w) : d.heaps.Asked [] d'.heaps := by
  cases m with
  | act a hs =>
    have ht := transition_of_step hs
    rw [(hb.passes ht (ne_process_of_stay ht stay)).heaps]
    exact .refl _
  | beginHalt =>
    rw [(custody_beginHalt d).heaps]
    exact .refl _
  | look id =>
    rw [(custody_look d id).heaps]
    exact .refl _
  | poll id waker =>
    rw [(custody_poll d id waker).heaps]
    exact .refl _
  | take id =>
    rw [(custody_take d id).1]
    exact .refl _
  | dropHandle id =>
    unfold Dispatcher.dropHandle
    split
    · exact (Heaps.Asked.refl d.heaps).drop _
    · exact .refl _
  | dropTaken b => exact (Heaps.Asked.refl d.heaps).drop _

/-- All that heaps were asked for in a run. -/
theorem Recorded.asked (h₀ : Unused p d₀) (h : Recorded p d₀ rs ts d) :
    d₀.heaps.Asked (ts.flatMap (Turn.demands p)) d.heaps := by
  induction h with
  | start => exact .refl _
  | submit r h _ ih =>
    rw [(custody_submit p (h.run.balanced h₀.inBalance) r).1]
    exact ih
  | @turn rs ts d d' s w h hw hs ih =>
    obtain ⟨d₁, w', r, hp, rfl⟩ := turn_cases hw hs
    have hasked := Turn.asked p ⟨d, s, w⟩
    rw [show (Turn.midway p ⟨d, s, w⟩).heaps = d₁.heaps by unfold Turn.midway; rw [hp]] at hasked
    rw [(h.run.balanced h₀.inBalance).heaps_conclude hw hp, List.flatMap_append, List.flatMap_singleton]
    exact ih.trans hasked
  | move h m stay ih =>
    have hboth := ih.trans ((h.run.balanced h₀.inBalance).asked_of_move m stay)
    rwa [List.append_nil] at hboth

/-! ### The turns of a compressed read -/

def turnsAt (ts : List (Turn σ κ)) (id : WorkId) : List (Turn σ κ) := ts.filter fun t => t.work.id == id

/-- What heaps were asked for on behalf of that work. -/
def demandsAt (p : Setup σ η κ) (ts : List (Turn σ κ)) (id : WorkId) : List Demand :=
  (turnsAt ts id).flatMap (Turn.demands p)

theorem mem_turnsAt : t ∈ turnsAt ts id ↔ t ∈ ts ∧ t.work.id = id := by
  unfold turnsAt
  rw [List.mem_filter, beq_iff_eq]

/-- The turns that a read can have. -/
inductive ReadTurns (p : Setup σ η κ) : List (Turn σ κ) → Prop
  | none : ReadTurns p []
  | loaded {x : Turn σ κ} (hio : x.stage = .io) : ReadTurns p [x]
  | unpacked {x u : Turn σ κ} (hio : x.stage = .io) (hon : x.HandsOn p .compression u.work)
      (hc : u.stage = .compression) : ReadTurns p [x, u]

theorem ReadTurns.compression {l : List (Turn σ κ)} (h : ReadTurns p l) (hu : u ∈ l)
    (hc : u.stage = .compression) : (∀ v ∈ l, v.stage = .compression → v = u) ∧
      ∃ x ∈ l, x.stage = .io ∧ x.HandsOn p .compression u.work := by
  cases h with
  | none => cases hu
  | loaded hio =>
    obtain rfl := List.mem_singleton.mp hu
    cases hio.symm.trans hc
  | @unpacked x u' hio hon hc' =>
    have hlast : ∀ v ∈ [x, u'], v.stage = .compression → v = u' := by
      intro v hv hcv
      rcases List.mem_cons.mp hv with rfl | hv
      · cases hio.symm.trans hcv
      · exact List.mem_singleton.mp hv
    obtain rfl := hlast u hu hc
    exact ⟨hlast, x, List.mem_cons_self, hio, hon⟩

theorem Recorded.turns_of_read {compressed : Bool} (h₀ : Unused p d₀) (h : Recorded p d₀ rs ts d)
    (hr : rs[id]? = some (.read path heap nullTerminate compressed)) : ReadTurns p (turnsAt ts id) := by
  cases hturns : turnsAt ts id with
  | nil => exact .none
  | cons x l =>
    obtain ⟨ts₁, ts₂, rfl, hno, hid, hl⟩ := List.filter_eq_cons_iff.mp hturns
    have hid : x.work.id = id := beq_iff_eq.mp hid
    have hio : x.stage = .io := by
      rcases h.origin_at h₀ rfl with ho | ⟨t, ht, hon, -⟩
      · exact (ho.firstStage (by rw [hid]; exact hr)).symm
      · exact absurd (beq_iff_eq.mpr (hon.sameAs.id.symm.trans hid)) (hno t ht)
    cases l with
    | nil => exact .loaded hio
    | cons u l =>
      obtain ⟨us, us', rfl, -, hidu, hl'⟩ := List.filter_eq_cons_iff.mp hl
      have hidu : u.work.id = id := beq_iff_eq.mp hidu
      obtain ⟨-, -, hP⟩ := (account_handed h₀).at_turn h₀ h (t := u)
        (show ts₁ ++ x :: (us ++ u :: us') = (ts₁ ++ x :: us) ++ u :: us' by simp)
      have hon := hP x (by simp) (hid.trans hidu.symm)
      have hc : u.stage = .compression := by
        rw [← hon.stage, hio]
        rfl
      cases l with
      | nil => exact .unpacked hio (hc ▸ hon) hc
      | cons v l =>
        -- the work would be handed on from both stages
        obtain ⟨vs, vs', rfl, -, hidv, -⟩ := List.filter_eq_cons_iff.mp hl'
        obtain ⟨-, -, hP⟩ := (account_handed h₀).at_turn h₀ h (t := v)
          (show ts₁ ++ x :: (us ++ u :: (vs ++ v :: vs')) = (ts₁ ++ x :: (us ++ u :: vs)) ++ v :: vs' by
            simp)
        have hon' := hP u (by simp) (hidu.trans (beq_iff_eq.mp hidv).symm)
        cases hon.not_readied.symm.trans hon'.readied

section

variable {compressed : Bool} (h₀ : Unused p d₀) (h : Recorded p d₀ rs ts d)
  (hr : rs[id]? = some (.read path heap nullTerminate compressed)) (hu : u ∈ ts) (hid : u.work.id = id)

include h₀ h hr hu hid

theorem Recorded.heap_of_read : u.work.heap = heap := by
  obtain ⟨_, -, b, n, hw⟩ := (h.origin h₀ hu).of_submission (by rw [hid]; exact hr)
  rw [hw]
  rfl

theorem Recorded.extra_of_read : u.work.extra = if nullTerminate then 1 else 0 := by
  unfold Work.extra
  rw [(h.asked_of_read h₀ hr hu hid).2.1]

theorem Recorded.demands_of_io (hio : u.stage = .io) (hcompressed : compressed = true) :
    u.demands p = ((toldSize? p u.before.backend u.work).map (ownDemand p)).toList := by
  obtain ⟨hop, -, hcomp⟩ := h.asked_of_read h₀ hr hu hid
  have hown : readDemand p u.work = ownDemand p :=
    funext (Stage.readDemand_of_compressed (hcomp.trans hcompressed))
  unfold Turn.demands ioDemands
  rw [hio]
  dsimp only
  rw [hop, hown]

theorem Recorded.demands_of_compression (hc : u.stage = .compression) :
    u.demands p = ((Frame.examine p.codec u.before.codec u.work.buffer.bytes).toOption.map
      (payloadDemand p u.work)).toList := by
  unfold Turn.demands
  rw [hc]
  exact Stage.compressionDemands_read p _ (h.asked_of_read h₀ hr hu hid).1

end

/-- The raw block of a read is given back in the turn `u`, after all that this turn asks for and before
    the read ends. -/
structure GivesBack (p : Setup σ η κ) (u : Turn σ κ) (raw : Buffer) : Prop where
  last : ∃ hs : Heaps, u.before.heaps.Asked (u.demands p) hs ∧
    (u.midway p).heaps = (hs.dropBuffer raw).1
  /-- No books know it any more then, -/
  gone : ∀ t ∈ (u.midway p).heaps.trackers raw.heap, ∀ books, (u.midway p).heaps.books? t = some books →
    books.has raw.address = false
  /-- and the ticket shows nothing yet. -/
  pending : ∃ t, (u.midway p).tickets[u.work.id]? = some t ∧ t.isDone = false

/-- The raw bytes that a read has brought to the compression stage for its turn `u`. -/
structure BringsRaw (p : Setup σ η κ) (x u : Turn σ κ) (raw : Buffer) : Prop where
  /-- They are what was read from the file, into the block that was asked for. -/
  loaded : ∃ size, HasLoaded p x.before.backend x.work u.work size raw.bytes.length ∧
    toldSize? p x.before.backend x.work = some size ∧ raw.demand = ownDemand p size
  buffer : u.work.buffer = .owned raw

theorem Recorded.brings_raw (h₀ : Unused p d₀) (h : Recorded p d₀ rs ts d)
    (hr : rs[id]? = some (.read path heap nullTerminate true)) (hx : x ∈ ts) (hidx : x.work.id = id)
    (hio : x.stage = .io) (hon : x.HandsOn p .compression u.work) : ∃ raw, BringsRaw p x u raw := by
  obtain ⟨hop, -, hcomp⟩ := h.asked_of_read h₀ hr hx hidx
  obtain ⟨hafter, hresult⟩ := Turn.eq_processIo (p := p) hio
  have hok := (Turn.readied_iff.mp hon.readied).1
  rw [hresult] at hok
  rcases Stage.processIo_read_cases p x.before.heaps x.before.backend hop with
    ⟨-, size, n, hl⟩ | ⟨-, ⟨c, hc⟩, -⟩ | ⟨-, ⟨f, hf⟩, -⟩
  · obtain ⟨raw, hbuffer, hdemand, rfl⟩ := hl.demand hop (h.buffer_of_read h₀ hx hio hop)
    rw [Stage.readDemand_of_compressed hcomp] at hdemand
    have hwork : u.work = (Stage.processIo p x.before.heaps x.before.backend x.work).work :=
      hon.work.trans hafter
    rw [← hwork] at hl hbuffer
    exact ⟨raw, ⟨size, hl, hl.told, hdemand⟩, hbuffer⟩
  · cases hok.symm.trans hc
  · cases hok.symm.trans hf

theorem Recorded.gives_back (h₀ : Unused p d₀) (h : Recorded p d₀ rs ts d) (hu : u ∈ ts)
    (hc : u.stage = .compression) (hop : u.work.op = .read) {raw : Buffer}
    (hraw : u.work.buffer = .owned raw) : GivesBack p u raw := by
  have hlast : ∃ hs : Heaps, u.before.heaps.Asked (u.demands p) hs ∧
      (u.midway p).heaps = (hs.dropBuffer raw).1 := by
    obtain ⟨hs, hasked, hheaps⟩ := Stage.heaps_decompressed p u.before.heaps u.before.codec hop
    rw [hraw] at hheaps
    unfold Turn.demands Turn.midway
    rw [hc]
    exact ⟨hs, hasked, hheaps⟩
  refine ⟨hlast, fun t ht books hb => ?_, ?_⟩
  · obtain ⟨hs, -, hheaps⟩ := hlast
    rw [hheaps] at ht hb
    exact Heaps.has_dropBuffer hs raw ht hb
  · obtain ⟨ts₁, ts₂, rfl⟩ := List.append_of_mem hu
    obtain ⟨rs₁, -, hrec, hw⟩ := h.at_turn rfl
    obtain ⟨t, ht, hp, -⟩ := (hrec.run.balanced h₀.inBalance).pending_of_mem
      (mem_held (mem_worksOf_worker hw List.mem_cons_self))
    have hsame := untouched_of_processing (p := p) (d := u.before) (s := u.stage) (w := u.work) rfl
    exact ⟨t, (congrArg (·[u.work.id]?) hsame.tickets).trans ht, hp⟩

/-! ### The cost of a compressed read -/

theorem length_toList_le {α : Type} (o : Option α) : o.toList.length ≤ 1 := by
  cases o with
  | none => exact Nat.zero_le 1
  | some a => exact Nat.le_refl 1

/-- What a compressed read asks for: at most one block for the file, and after it at most one for the
    payload. -/
theorem Recorded.exists_costs (h₀ : Unused p d₀) (h : Recorded p d₀ rs ts d)
    (hr : rs[id]? = some (.read path heap nullTerminate true)) : ∃ own caller : List Demand,
      demandsAt p ts id = own ++ caller ∧ own.length ≤ 1 ∧ caller.length ≤ 1 ∧
      (∀ m ∈ own, ∃ x ∈ turnsAt ts id, x.stage = .io ∧
        ∃ size, toldSize? p x.before.backend x.work = some size ∧ m = ownDemand p size) ∧
      ∀ m ∈ caller, ∃ u ∈ turnsAt ts id, u.stage = .compression ∧
        ∃ n, Frame.examine p.codec u.before.codec u.work.buffer.bytes = .ok n ∧
          m = payloadDemand p u.work n := by
  have hio : ∀ x ∈ turnsAt ts id, x.stage = .io → (x.demands p).length ≤ 1 ∧
      ∀ m ∈ x.demands p, ∃ x ∈ turnsAt ts id, x.stage = .io ∧
        ∃ size, toldSize? p x.before.backend x.work = some size ∧ m = ownDemand p size := by
    intro x hx hstage
    obtain ⟨hmem, hid⟩ := mem_turnsAt.mp hx
    rw [h.demands_of_io h₀ hr hmem hid hstage rfl]
    refine ⟨length_toList_le _, fun m hm => ?_⟩
    obtain ⟨size, htold, hm⟩ := Option.map_eq_some_iff.mp (Option.mem_toList.mp hm)
    exact ⟨x, hx, hstage, size, htold, hm.symm⟩
  have hcompression : ∀ u ∈ turnsAt ts id, u.stage = .compression → (u.demands p).length ≤ 1 ∧
      ∀ m ∈ u.demands p, ∃ u ∈ turnsAt ts id, u.stage = .compression ∧
        ∃ n, Frame.examine p.codec u.before.codec u.work.buffer.bytes = .ok n ∧
          m = payloadDemand p u.work n := by
    intro u hu hstage
    obtain ⟨hmem, hid⟩ := mem_turnsAt.mp hu
    rw [h.demands_of_compression h₀ hr hmem hid hstage]
    refine ⟨length_toList_le _, fun m hm => ?_⟩
    obtain ⟨n, hn, hm⟩ := Option.map_eq_some_iff.mp (Option.mem_toList.mp hm)
    refine ⟨u, hu, hstage, n, ?_, hm.symm⟩
    cases hcheck : Frame.examine p.codec u.before.codec u.work.buffer.bytes with
    | error e =>
      rw [hcheck] at hn
      cases hn
    | ok n' =>
      rw [hcheck] at hn
      exact congrArg Except.ok (Option.some.inj hn)
  have hturns := h.turns_of_read h₀ hr
  unfold demandsAt
  generalize turnsAt ts id = l at hturns hio hcompression ⊢
  cases hturns with
  | none =>
    exact ⟨[], [], rfl, Nat.zero_le 1, Nat.zero_le 1, fun m hm => absurd hm List.not_mem_nil,
      fun m hm => absurd hm List.not_mem_nil⟩
  | @loaded x hstage =>
    obtain ⟨hone, hown⟩ := hio x List.mem_cons_self hstage
    exact ⟨x.demands p, [], rfl, hone, Nat.zero_le 1, hown, fun m hm => absurd hm List.not_mem_nil⟩
  | @unpacked x u hstage hon hc =>
    obtain ⟨hone, hown⟩ := hio x List.mem_cons_self hstage
    obtain ⟨hone', hcaller⟩ := hcompression u (List.mem_cons_of_mem x List.mem_cons_self) hc
    refine ⟨x.demands p, u.demands p, ?_, hone, hone', hown, hcaller⟩
    rw [List.flatMap_cons, List.flatMap_singleton]

/-- What the compressed read with a number costs, if its payload is to go into a buffer of `heap` with
    room for `extra` bytes behind it. -/
structure Frugal (p : Setup σ η Unit) (d₀ : Dispatcher σ Unit) (ts : List (Turn σ Unit))
    (d : Dispatcher σ Unit) (id : WorkId) (heap : HeapId) (extra : Nat) : Prop where
  /-- Each turn asks heaps for exactly what is said here, and nothing else in the run asks for anything;
      a source sees no other requests. -/
  asked : d₀.heaps.Asked (ts.flatMap (Turn.demands p)) d.heaps ∧
    ∀ t ∈ ts, t.before.heaps.Asked (t.demands p) (t.midway p).heaps ∧
      ∀ source, ∃ seen, (t.midway p).heaps.history source = seen ++ t.before.heaps.history source ∧
        (seen.reverse.map Request.layout).Sublist (t.before.heaps.endingAt source (t.demands p))
  elsewhere : ∀ m ∈ demandsAt p ts id, m.heap = heap ∨ m.heap = p.ownHeap
  /-- The caller's heap gets at most one request, and only for a header that passed the check; how large
      it is is bounded by the number of raw bytes. -/
  caller : ((demandsAt p ts id).filter fun m => m.heap == heap).length ≤ 1 ∧
    ∀ m ∈ demandsAt p ts id, m.heap = heap → ∃ u ∈ turnsAt ts id, u.stage = .compression ∧
      ∃ n, Frame.checkHeader Codec.lz4 () u.work.buffer.bytes = .ok n ∧
        m.layout = Buffer.layoutOf (n + extra) p.config.bufferAlignment ∧
        m.layout.size ≤ max 1 (min (255 * (u.work.buffer.bytes.length - 4)) 4294967295 + extra)
  /-- For a header that is truncated or implausible it gets none. -/
  rejected : ∀ u ∈ turnsAt ts id, u.stage = .compression → ∀ e,
    Frame.checkHeader Codec.lz4 () u.work.buffer.bytes = .error e →
      ∀ m ∈ demandsAt p ts id, m.heap ≠ heap
  /-- The pipeline's own heap gets at most one request, for as much as the file is said to hold. -/
  own : ((demandsAt p ts id).filter fun m => m.heap == p.ownHeap).length ≤ 1 ∧
    ∀ m ∈ demandsAt p ts id, m.heap = p.ownHeap → ∃ x ∈ turnsAt ts id, x.stage = .io ∧
      ∃ size, toldSize? p x.before.backend x.work = some size ∧
        m.layout = ⟨max size 1, p.config.bufferAlignment⟩
  /-- The raw bytes are those that were read, in that block, and it is given back in the turn of the
      compression stage before the read ends, however that turn goes. -/
  raw : ∀ u ∈ turnsAt ts id, u.stage = .compression → ∃ x ∈ turnsAt ts id, x.stage = .io ∧
    ∃ raw, BringsRaw p x u raw ∧ GivesBack p u raw
  /-- Between the compression stage taking the read and that turn, the read has not ended. -/
  taken : ∀ w, d.tasks.get .compression = .busy w → w.id = id →
    ∃ t, d.tickets[id]? = some t ∧ t.isDone = false

theorem length_filter_le {l : List Demand} {m n : HeapId} {l' : List Demand} (hl : l.length ≤ 1)
    (hl' : ∀ q ∈ l', q.heap = m) (hne : m ≠ n) :
    ((l ++ l').filter fun q => q.heap == n).length ≤ 1 := by
  have hnone : l'.filter (fun q => q.heap == n) = [] := by
    refine List.filter_eq_nil_iff.mpr fun q hq he => hne ?_
    exact (hl' q hq).symm.trans (beq_iff_eq.mp he)
  rw [List.filter_append, hnone, List.append_nil]
  exact (List.length_filter_le _ l).trans hl

/-- **What a compressed read costs is bounded by what was read**, whatever the file holds, whatever the
    backend says of it, and however the read ends. -/
theorem Recorded.frugal {p : Setup σ η Unit} {d₀ d : Dispatcher σ Unit} {ts : List (Turn σ Unit)}
    (h₀ : Fresh p d₀) (hl : p.codec = Codec.lz4) (h : Recorded p d₀ rs ts d)
    (hr : rs[id]? = some (.read path heap nullTerminate true)) (hne : heap ≠ p.ownHeap) :
    Frugal p d₀ ts d id heap (if nullTerminate then 1 else 0) := by
  have h₀ := h₀.unused
  have hturns := h.turns_of_read h₀ hr
  obtain ⟨own, caller, hcosts, hone, hone', hown, hcaller⟩ := h.exists_costs h₀ hr
  rw [hl] at hcaller
  have hheap : ∀ m ∈ own, m.heap = p.ownHeap := by
    intro m hm
    obtain ⟨_, -, -, size, -, rfl⟩ := hown m hm
    rfl
  have hheap' : ∀ m ∈ caller, m.heap = heap := by
    intro m hm
    obtain ⟨u, hu, -, n, -, rfl⟩ := hcaller m hm
    obtain ⟨hmem, hid⟩ := mem_turnsAt.mp hu
    exact h.heap_of_read h₀ hr hmem hid
  have hmine : ∀ m ∈ demandsAt p ts id, m.heap = heap → m ∈ caller := by
    intro m hm he
    rw [hcosts] at hm
    refine (List.mem_append.mp hm).resolve_left fun hm => hne ?_
    exact he.symm.trans (hheap m hm)
  refine ⟨⟨h.asked h₀, fun t _ => ⟨t.asked p, (t.asked p).seen⟩⟩, fun m hm => ?_, ⟨?_, fun m hm he => ?_⟩,
    fun u hu hc e he m hm hm' => ?_, ⟨?_, fun m hm he => ?_⟩, fun u hu hc => ?_, fun w hw hid => ?_⟩
  · rw [hcosts] at hm
    exact (List.mem_append.mp hm).symm.imp (hheap' m) (hheap m)
  · rw [hcosts, List.filter_append, List.length_append, Nat.add_comm, ← List.length_append,
      ← List.filter_append]
    exact length_filter_le hone' hheap hne.symm
  · obtain ⟨u, hu, hc, n, hn, rfl⟩ := hcaller m (hmine m hm he)
    obtain ⟨hmem, hid⟩ := mem_turnsAt.mp hu
    have hn := Frame.examine_lz4_iff.mp hn
    obtain ⟨hlayout, hle⟩ := Stage.layout_payloadDemand (p := p) (w := u.work) hn
    rw [h.extra_of_read h₀ hr hmem hid] at hlayout hle
    exact ⟨u, hu, hc, n, hn, hlayout, hle⟩
  · obtain ⟨v, hv, hcv, n, hn, -⟩ := hcaller m (hmine m hm hm')
    obtain rfl := (hturns.compression hu hc).1 v hv hcv
    cases (Frame.examine_lz4_iff.mp hn).symm.trans he
  · rw [hcosts]
    exact length_filter_le hone hheap' hne
  · rw [hcosts] at hm
    have hm : m ∈ own := (List.mem_append.mp hm).resolve_right fun hm =>
      hne ((hheap' m hm).symm.trans he)
    obtain ⟨x, hx, hio, size, htold, rfl⟩ := hown m hm
    exact ⟨x, hx, hio, size, htold, rfl⟩
  · obtain ⟨x, hx, hio, hon⟩ := (hturns.compression hu hc).2
    obtain ⟨hmemx, hidx⟩ := mem_turnsAt.mp hx
    obtain ⟨hmem, hid⟩ := mem_turnsAt.mp hu
    obtain ⟨raw, hraw⟩ := h.brings_raw h₀ hr hmemx hidx hio hon
    exact ⟨x, hx, hio, raw, hraw,
      h.gives_back h₀ hmem hc (h.asked_of_read h₀ hr hmem hid).1 hraw.buffer⟩
  · obtain ⟨t, ht, hp, -⟩ := (h.run.balanced h₀.inBalance).pending_of_mem
      (mem_held (mem_worksOf_worker hw List.mem_cons_self))
    exact ⟨t, hid ▸ ht, hp⟩

/-- A frame of one byte that is read into a tracking heap costs that heap one byte. -/
theorem frugal_of_tiny_frame : ∃ d₀ d ts, Fresh (lz4Setup 1) d₀ ∧ 1 ≠ (lz4Setup 1).ownHeap ∧
    Recorded (lz4Setup 1) d₀ [.read "f" 1 false true] ts d ∧ Frugal (lz4Setup 1) d₀ ts d 0 1 0 ∧
    ⟨1, ⟨1, defaultAlignment⟩⟩ ∈ demandsAt (lz4Setup 1) ts 0 := by
  have hserves : trackedHeaps.Serves := ⟨_, _, _, _, rfl⟩
  obtain ⟨d₀, d₁, w, d₂, u, hfresh, -, hbegun, -, -, -, hu, hid, hop, hbytes, hheap, hextra, -⟩ :=
    exists_read_done hserves (Heaps.ledger_zero live_trackedHeaps) 1 tinyFrame rfl rfl
  have hstep : d₂.step (lz4Setup 1) (.process .compression) = some _ := process_busy hu
  have hrec := hbegun.turn hu hstep
  have hne : 1 ≠ (lz4Setup 1).ownHeap := by decide
  have hfrugal : Frugal (lz4Setup 1) d₀ _ _ 0 1 (if false then 1 else 0) :=
    Recorded.frugal hfresh rfl hrec rfl hne
  refine ⟨d₀, _, _, hfresh, hne, hrec, hfrugal, ?_⟩
  refine List.mem_flatMap.mpr ⟨⟨d₂, .compression, u⟩, mem_turnsAt.mpr ⟨by simp, hid⟩, ?_⟩
  rw [hrec.demands_of_compression hfresh.unused rfl (u := ⟨d₂, .compression, u⟩) (by simp) hid rfl]
  dsimp only
  rw [hbytes, show (lz4Setup 1).codec = Codec.lz4 from rfl,
    Frame.examine_lz4_iff.mpr isFrame_tinyFrame.checkHeader]
  refine Option.mem_toList.mpr (congrArg some ?_)
  unfold payloadDemand
  rw [hheap, hextra]
  rfl

end FilePipeline.Dispatcher
