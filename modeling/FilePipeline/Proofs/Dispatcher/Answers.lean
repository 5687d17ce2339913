import FilePipeline.Proofs.Dispatcher.Deeds
import FilePipeline.Proofs.Dispatcher.Requests
import FilePipeline.Proofs.Stage.Custody

/-! # What handles answer

A handle may be asked anything at any time (`exists_answers`: once the work has ended, any calls in any
order are answered). `Played.answers_coherent` says what comes out. There is one moment at which the work
ends, with an outcome of the kind that `Ending` lists. Before it, the handle has nothing more to say than that
it is not done. From then on its answers are coherent: they say what the outcome says, each time, and only
the buffer is gone once it was taken. For a read that has succeeded, the outcome comes with a buffer of
the heap that was asked for, filled up to the size that is told (`Recorded.delivers`). -/

namespace FilePipeline

/-- The outcome comes with a buffer of this heap, and its size is the length of the buffer. -/
def Outcome.Delivers (o : Outcome) (heap : HeapId) : Prop :=
  ∃ b, o.buffer = .owned b ∧ b.heap = heap ∧ b.length = o.size ∧ b.bytes.length = o.size

theorem Heaps.heap_newBuffer {hs hs' : Heaps} {id : HeapId} {n align : Nat} {b : Buffer}
    (h : hs.newBuffer id n align = (.ok b, hs')) : b.heap = id := by
  obtain ⟨-, _, _, -, -, rfl⟩ := exists_block_of_newBuffer h
  rfl

namespace Stage

variable {σ η κ : Type} {p : Setup σ η κ} {hs : Heaps} {w : Work}

theorem delivers_filled (b₀ : Buffer) {b : Buffer} {n : Nat} {terminated : Bool}
    (h : (b₀.setLength n).map (fun b => if terminated then b.terminate.2 else b) = .ok b)
    (w : Work) (hs : Heaps) (x : Except WorkError Unit) : ((w.carry hs b).1.outcome x).Delivers b₀.heap :=
  have hfilled := Buffer.filled_of_setLength h
  ⟨b, rfl, congrArg Lease.heap (lease_filled h), rfl, hfilled.length_bytes.trans hfilled.length.symm⟩

theorem delivers_readContents (p : Setup σ η κ) (hs : Heaps) (w : Work) (s : σ) (h : η)
    (x : Except WorkError Unit) : (readContents p hs w s h).result = .ok () →
      ((readContents p hs w s h).work.outcome x).Delivers (if w.compressed then p.ownHeap else w.heap) := by
  unfold readContents
  dsimp only
  split
  · next f _ => exact fun hok => nomatch Attempt.mapError_eq_ok.mp hok
  · next size _ =>
    split
    · exact nofun
    · next b₀ hs₁ hnew =>
      split
      · next f _ => exact fun hok => nomatch Attempt.mapError_eq_ok.mp hok
      · next n _ =>
        split
        · exact nofun
        · next b hb =>
          intro _
          have htarget : (if w.compressed then p.ownHeap else w.heap) = b₀.heap := by
            rw [Heaps.heap_newBuffer hnew]
            unfold readTarget
            split <;> rfl
          rw [htarget]
          exact delivers_filled (b₀.write _) hb w hs₁ x

theorem delivers_processIo (p : Setup σ η κ) (hs : Heaps) (s : σ) (hop : w.op = .read)
    (x : Except WorkError Unit) (hok : (processIo p hs s w).result = .ok ()) :
    ((processIo p hs s w).work.outcome x).Delivers (if w.compressed then p.ownHeap else w.heap) := by
  unfold processIo at hok ⊢
  rw [hop] at hok ⊢
  dsimp only at hok ⊢
  unfold read withFile at hok ⊢
  revert hok
  split
  · next f _ => exact fun hok => nomatch Attempt.mapError_eq_ok.mp hok
  · next path _ =>
    dsimp only
    split
    · next f _ => exact fun hok => nomatch Attempt.mapError_eq_ok.mp hok
    · next h _ =>
      intro hok
      rw [work_closing]
      refine delivers_readContents p hs w _ h x ?_
      cases hr : (readContents p hs w (p.backend.openFile s path .sharedRead).state h).result with
      | ok => rfl
      | error f =>
        obtain ⟨f', hf'⟩ := closing_of_error (b := p.backend) hr
        cases hok.symm.trans hf'

theorem delivers_processCompression (p : Setup σ η κ) (hs : Heaps) (k : κ) (hop : w.op = .read)
    (x : Except WorkError Unit) (hok : (processCompression p hs k w).result = .ok ()) :
    ((processCompression p hs k w).work.outcome x).Delivers w.heap := by
  rw [processCompression_read p hs k hop] at hok ⊢
  unfold decompress unpack at hok ⊢
  revert hok
  dsimp only
  split
  · next f _ => exact fun hok => nomatch Attempt.mapError_eq_ok.mp hok
  · split
    · exact nofun
    · next b₀ hs₁ hnew =>
      split
      · next f _ => exact fun hok => nomatch Attempt.mapError_eq_ok.mp hok
      · split
        · exact nofun
        · next b hb =>
          intro _
          have hheap : w.heap = b₀.heap := (Heaps.heap_newBuffer hnew).symm
          rw [hheap]
          exact delivers_filled (b₀.write _) hb { w with buffer := .none } hs₁ x

end Stage

namespace Dispatcher

variable {σ η κ : Type} {p : Setup σ η κ} {d d₀ : Dispatcher σ κ} {rs : List Submission}
  {ts : List (Turn σ κ)} {id : WorkId} {o : Outcome}

/-- A read that has succeeded comes with a buffer of the heap that it was asked for with. -/
theorem Recorded.delivers (h₀ : Unused p d₀) (h : Recorded p d₀ rs ts d) {path : String} {heap : HeapId}
    {nullTerminate compressed : Bool}
    (hr : rs[id]? = some (.read path heap nullTerminate compressed)) (he : Ending p d₀ rs ts id o)
    (hok : o.result = .ok ()) : o.Delivers heap := by
  cases he with
  | unfit | crashed | dropped => cases hok
  | @turn t x ht hid hres hh =>
    obtain rfl : x = .ok () := hok
    obtain ⟨hop, -, hcompressed⟩ := h.asked_of_read h₀ hr ht hid
    have hheap := h.heap_of_read h₀ hr ht hid
    obtain ⟨d₁, s, w⟩ := t
    cases s with
    | compression =>
      have hd := Stage.delivers_processCompression p d₁.heaps d₁.codec hop (.ok ()) hres
      exact hheap ▸ hd
    | io =>
      have hd := Stage.delivers_processIo p d₁.heaps d₁.backend hop (.ok ()) hres
      have hsame : (Turn.after p ⟨d₁, .io, w⟩).SameAs w := Stage.work_processIo p d₁.heaps d₁.backend w
      have hop : w.op = .read := hop
      -- a compressed read is handed on
      have hplain : w.compressed = false := by
        cases hc : w.compressed with
        | false => rfl
        | true =>
          have hh : (_ && _) = false := hh rfl
          rw [hsame.op, hsame.compressed, hop, hc] at hh
          cases hh
      rw [hplain] at hd
      exact hheap ▸ hd

/-- What an outcome means for the answers of the handle since then. -/
structure Answered (r : Submission) (o : Outcome) (as : List Response) : Prop where
  /-- They all say what the outcome says; but the buffer is shown only as long as it was not taken. -/
  coherent : Coherent r.op o as
  /-- The buffer is handed over at most once, -/
  once : ∀ (i j : Nat) (b b' : Buffer), as[i]? = some (.take (some b)) →
    as[j]? = some (.take (some b')) → i = j
  /-- never if the work is a write, -/
  kept : r.op = .write → ¬ Taken as
  /-- and there is one to hand over, with the bytes shown, of the length that is told and of the heap
  that was asked for, if the work is a read that has succeeded. -/
  delivered : ∀ path heap nullTerminate compressed, r = .read path heap nullTerminate compressed →
    o.result = .ok () → ∃ b, o.buffer = .owned b ∧ o.shown = some b.bytes ∧ b.bytes.length = o.size ∧
      b.length = o.size ∧ b.heap = heap

theorem answered_of_ending (h₀ : Unused p d₀) (h : Recorded p d₀ rs ts d) {r : Submission}
    (hr : rs[id]? = some r) (he : Ending p d₀ rs ts id o) {as : List Response} (hs : Coherent r.op o as) :
    Answered r o as where
  coherent := hs
  once _ _ _ _ hi hj := hs.once hi hj
  kept hop := Coherent.not_taken (hop ▸ hs)
  delivered path heap nullTerminate compressed hread hok := by
    subst hread
    obtain ⟨b, hb, hheap, hlength, hbytes⟩ := h.delivers h₀ hr he hok
    refine ⟨b, hb, ?_, hbytes, hlength, hheap⟩
    unfold Outcome.shown
    rw [hok, hb]
    rfl

/-- **Whatever a handle is asked**, in whatever order and between whatever else happens: there is a
moment at which the work ends with an outcome. Before it the handle only says that it is not done, and
from then on all its answers say what the outcome says. -/
theorem Played.answers_coherent (h₀ : Fresh p d₀) {es : List Deed} {log : Transcript}
    (h : Played p d₀ es log d) {r : Submission} (hr : (submissions es)[id]? = some r) {t : Ticket}
    (ht : d.tickets[id]? = some t) (hd : t.isDone = true) :
    ∃ es₁ es₂ log₁ log₂ d₁ ts o, es = es₁ ++ es₂ ∧ log = log₁ ++ log₂ ∧ Played p d₀ es₁ log₁ d₁ ∧
      Played p d₁ es₂ log₂ d ∧ Recorded p d₀ (submissions es₁) ts d₁ ∧
      Ending p d₀ (submissions es₁) ts id o ∧ (∀ a ∈ log₁.by id, a.Unsettled r.op) ∧
      Answered r o (log₂.by id) := by
  have h₀ := h₀.unused
  have hnew : ∀ u, d₀.tickets[id]? = some u → u.isDone = false := fun u hu => by
    rw [h₀.tickets] at hu
    cases hu
  obtain ⟨es₁, es₂, log₁, log₂, d₁, t₁, rfl, rfl, hs₁, hs₂, ht₁, hd₁, hseen, hsaid⟩ :=
    h.split h₀.inBalance hnew ht hd
  have hrun := hs₁.run
  have hlt : id < (submissions es₁).length := by
    rw [← hrun.length h₀.tickets]
    exact (List.getElem?_eq_some_iff.mp ht₁).1
  have hr₁ : (submissions es₁)[id]? = some r := by
    rw [submissions, List.filterMap_append, List.getElem?_append_left hlt] at hr
    exact hr
  have hop : t₁.op = r.op := hrun.ticket_op h₀.tickets ht₁ hr₁
  obtain ⟨ts, hrec⟩ := hrun.recorded
  obtain ⟨o, hshows, hend⟩ := hrec.ending h₀ ht₁ hd₁
  have ho : t₁.outcome = o := hshows.outcome_of_unseen hseen
  have hcoherent := Ticket.coherent_answers hd₁ (askedOf id es₂)
  rw [← hs₂.answers_of_done ht₁ hd₁, hop, ho] at hcoherent
  exact ⟨es₁, es₂, log₁, log₂, d₁, ts, o, rfl, rfl, hs₁, hs₂, hrec, hend, hop ▸ hsaid,
    answered_of_ending h₀ hrec hr₁ hend hcoherent⟩

/-- The handle of work that has ended answers any calls in any order. -/
theorem exists_answers (p : Setup σ η κ) {t : Ticket} (ht : d.tickets[id]? = some t)
    (hn : t.dropped = false) (hd : t.isDone = true) (as : List Accessor) :
    ∃ log d' t', Played p d (as.map (.ask id)) log d' ∧ d'.tickets[id]? = some t' ∧ t'.isDone = true ∧
      log.by id = t.answers as := by
  induction as generalizing d t with
  | nil => exact ⟨[], d, t, .nil d, ht, hd, rfl⟩
  | cons a as ih =>
    have ht' := ticket_setTicket_self ht (t.after a)
    obtain ⟨log, d', t', hs, hend, hd', hlog⟩ :=
      ih ht' ((t.dropped_after a).trans hn) ((t.kept_after hd a).isDone hd)
    have hheld : d.held? id = some t := by
      unfold held?
      rw [ht, Option.filter_some, hn]
      rfl
    have hask : d.perform p (.ask id a) = some ([(id, t.answer a)], d.setTicket id (t.after a)) := by
      simp only [perform]
      rw [hheld, Option.bind_some, hd, Bool.not_true, Bool.and_false]
      rfl
    refine ⟨_, d', t', .cons hask hs, hend, hd', ?_⟩
    rw [by_append, hlog]
    simp [Transcript.by, Ticket.answers]

/-- A plain read whose file is loaded ends so, and its handle answers any calls in any order. -/
theorem exists_answered_read (h₀ : Fresh p d₀) {es : List Deed} (h : Played p d₀ es [] d) {w : Work}
    (hw : d.tasks.get .io = .busy w) (ht : d.tickets[w.id]? = some { op := .read }) (hop : w.op = .read)
    (hc : w.compressed = false) (hok : (Stage.processIo p d.heaps d.backend w).result = .ok ())
    (as : List Accessor) :
    ∃ (t t' : Ticket) (log : Transcript) (d' : Dispatcher σ κ),
      Played p d₀ (es ++ .act (.process .io) :: as.map (.ask w.id)) log d' ∧
      t.isDone = true ∧ t.op = .read ∧
      t.outcome = (Stage.processIo p d.heaps d.backend w).work.outcome (.ok ()) ∧
      log.by w.id = t.answers as ∧ d'.tickets[w.id]? = some t' ∧ t'.isDone = true := by
  let last : Turn σ κ := ⟨d, .io, w⟩
  have hready : last.readied p = false := by
    by_contra hne
    obtain ⟨-, hcomp⟩ := Turn.io_of_readied (eq_true_of_ne_false hne) hop
    cases hc.symm.trans hcomp
  obtain ⟨d₂, hstep⟩ : ∃ d₂, d.step p (.process .io) = some d₂ := ⟨_, process_busy hw⟩
  obtain ⟨u, hcons, hp, hu, hend⟩ :=
    published_of_turn (h.run.balanced h₀.unused.inBalance) hw hstep hready
  obtain rfl : u = { op := .read } := Option.some.inj (hu.symm.trans ht)
  have hout := hcons.outcome_publish hp ((last.after p).outcome (last.verdict p))
  rw [show last.verdict p = .ok () from Turn.verdict_eq_ok.mpr hok] at hout hend
  obtain ⟨log, d', t', hasked, ht', hd', hlog⟩ := exists_answers p hend rfl rfl as
  have hturn : d.perform p (.act (.process .io)) = some ([], d₂) := by
    simp only [perform]
    rw [hstep]
    rfl
  exact ⟨_, t', log, d', h.append (.silent hturn hasked), rfl, rfl, hout, hlog, ht', hd'⟩

/-- A read that has loaded a byte. Its buffer is taken, and cannot be taken again. -/
theorem answered_of_two_takes : ∃ d₀ d es log t b, Fresh boastingSetup d₀ ∧
    Played boastingSetup d₀ es log d ∧ (submissions es)[0]? = some (.read "f" 0 false false) ∧
    d.tickets[0]? = some t ∧ t.isDone = true ∧ log.by 0 = [.take (some b), .take none] ∧
    ∃ o log₁ log₂, log = log₁ ++ log₂ ∧ (∀ a ∈ log₁.by 0, a.Unsettled .read) ∧
      Answered (.read "f" 0 false false) o (log₂.by 0) := by
  obtain ⟨d₀, d₁, w, hfresh, hbegun, hheaps, hticket, hw, hid, hop, hc, hheap⟩ : ∃ d₀ d₁ w,
      Fresh boastingSetup d₀ ∧
      Played boastingSetup d₀ [.submit (.read "f" 0 false false), .act (.push 0), .act (.pop .io)] [] d₁ ∧
      d₁.heaps = .initial ∧
      d₁.tickets[0]? = some { op := .read } ∧ d₁.tasks.get .io = .busy w ∧ w.id = 0 ∧ w.op = .read ∧
      w.compressed = false ∧ w.heap = Heaps.systemHeap :=
    ⟨_, _, _, ⟨⟨⟨[], 1⟩, fun _ => none⟩, .initial, (), (), rfl⟩,
      .silent rfl (.silent rfl (.silent rfl (.nil _))), rfl, rfl, rfl, rfl, rfl, rfl, rfl⟩
  have hok := processIo_boasting hop hc hheap
  rw [← hheaps] at hok
  rw [← hid] at hticket
  obtain ⟨t, t', log, d, hplayed, -, hread, hout, hlog, ht', hd'⟩ :=
    exists_answered_read hfresh hbegun hw hticket hop hc hok [.take, .take]
  obtain ⟨b, hb, -⟩ := Stage.delivers_processIo boastingSetup d₁.heaps d₁.backend hop (.ok ()) hok
  rw [← hout] at hb
  rw [hid] at hplayed ht' hlog
  obtain ⟨-, -, log₁, log₂, -, -, o, -, hsplit, -, -, -, -, hbefore, hafter⟩ :=
    hplayed.answers_coherent hfresh (r := .read "f" 0 false false) rfl ht' hd'
  refine ⟨d₀, d, _, log, t', b, hfresh, hplayed, rfl, ht', hd', ?_, o, log₁, log₂, hsplit, hbefore,
    hafter⟩
  rw [hlog]
  exact Ticket.answers_two_takes hread hb

end Dispatcher

end FilePipeline
