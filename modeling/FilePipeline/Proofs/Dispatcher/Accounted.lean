import FilePipeline.Proofs.Dispatcher.Custody

/-! # No block is lost and none is freed twice

In a `Lawful` run clients drop only buffers that they took over, each of them once. Apart from that
it is any run, and any I/O call, codec call or allocation in it may fail or crash. Whatever happens,
each block that was ever handed out has one owner, or was given back once (`Lawful.accounted`). Its
owner is a piece of work, a ticket, or a client who took the buffer over. So the books of tracking
heaps hold what these own, and nothing once all handles and buffers are dropped. -/

namespace FilePipeline

namespace Ticket

variable {O : Outcome → Prop} {t t' : Ticket}

/-- The handle of a ticket is dropped only once the work has ended, and takes the buffer along. -/
def LetGo (t : Ticket) : Prop := t.dropped = true → t.isDone = true ∧ t.HandedOver

theorem LetGo.change (h : t.LetGo) (c : t.Change O t') : t'.LetGo := by
  have hl : t.look.2.dropped = t.dropped := by unfold look; split <;> rfl
  have kept : t'.dropped = t.dropped → t'.LetGo := by
    intro hd hd'
    obtain ⟨hdone, hover⟩ := h (hd ▸ hd')
    exact ⟨(kept_of_change hdone c).isDone hdone, hover.change hdone c⟩
  cases c with
  | none => exact h
  | publish o ho hp => exact kept rfl
  | look hd => exact kept hl
  | poll waker => exact kept rfl
  | take hd =>
    refine kept ?_
    unfold take
    split
    · rfl
    · dsimp only
      split <;> exact hl
  | drop hd => exact fun _ => ⟨(kept_of_change (O := O) hd (.drop hd)).isDone hd, _, rfl, rfl⟩

theorem leases_of_handedOver (h : t.HandedOver) : t.leases = 0 := by
  obtain ⟨o, hs, hb⟩ := h
  unfold leases holds
  rw [hs]
  dsimp only
  rw [hb]
  rfl

end Ticket

namespace Dispatcher

variable {σ η κ : Type} {p : Setup σ η κ} {d d' d₀ : Dispatcher σ κ} {rs : List Submission}
  {taken : Multiset Lease}

/-! ### Lawful runs -/

/-- `Lawful p d₀ rs taken d`: a run from `d₀` to `d` with the submissions `rs`, after which clients
    own the blocks `taken`. They drop no others. -/
inductive Lawful (p : Setup σ η κ) (d₀ : Dispatcher σ κ) :
    List Submission → Multiset Lease → Dispatcher σ κ → Prop
  | start : Lawful p d₀ [] 0 d₀
  | submit {rs : List Submission} {taken : Multiset Lease} {d : Dispatcher σ κ} (r : Submission)
      (h : Lawful p d₀ rs taken d) (running : d.halt = .running) :
      Lawful p d₀ (rs ++ [r]) taken (d.submit p r)
  | act {rs : List Submission} {taken : Multiset Lease} {d d' : Dispatcher σ κ}
      (h : Lawful p d₀ rs taken d) (a : Action) (hs : d.step p a = some d') :
      Lawful p d₀ rs taken d'
  | beginHalt {rs : List Submission} {taken : Multiset Lease} {d : Dispatcher σ κ}
      (h : Lawful p d₀ rs taken d) : Lawful p d₀ rs taken d.beginHalt
  | look {rs : List Submission} {taken : Multiset Lease} {d : Dispatcher σ κ}
      (h : Lawful p d₀ rs taken d) (id : WorkId) : Lawful p d₀ rs taken (d.look id)
  | poll {rs : List Submission} {taken : Multiset Lease} {d : Dispatcher σ κ}
      (h : Lawful p d₀ rs taken d) (id : WorkId) (waker : Nat) :
      Lawful p d₀ rs taken (d.poll id waker).2
  | take {rs : List Submission} {taken : Multiset Lease} {d : Dispatcher σ κ}
      (h : Lawful p d₀ rs taken d) (id : WorkId) :
      Lawful p d₀ rs (Ticket.takenLeases (d.take id).1 + taken) (d.take id).2
  | dropHandle {rs : List Submission} {taken : Multiset Lease} {d : Dispatcher σ κ}
      (h : Lawful p d₀ rs taken d) (id : WorkId) : Lawful p d₀ rs taken (d.dropHandle id)
  | dropTaken {rs : List Submission} {taken : Multiset Lease} {d : Dispatcher σ κ} (b : Buffer)
      (h : Lawful p d₀ rs (b.lease ::ₘ taken) d) : Lawful p d₀ rs taken (d.release (.owned b))

theorem Lawful.run (h : Lawful p d₀ rs taken d) : Run p d₀ rs d := by
  induction h with
  | start => exact .start
  | submit r _ running ih => exact ih.submit r running
  | act _ a hs ih => exact ih.act a hs
  | beginHalt _ ih => exact ih.move .beginHalt
  | look _ id ih => exact ih.move (.look id)
  | poll _ id waker ih => exact ih.move (.poll id waker)
  | take _ id ih => exact ih.move (.take id)
  | dropHandle _ id ih => exact ih.move (.dropHandle id)
  | dropTaken b _ ih => exact ih.move (.dropTaken b)

theorem Lawful.replay {cs : List Cue} (h₀ : Lawful p d₀ rs taken d)
    (h : Dispatcher.replay p cs d = some d') : Lawful p d₀ (rs ++ submitted cs) taken d' := by
  induction cs generalizing rs d with
  | nil =>
    obtain rfl : d = d' := Option.some.inj h
    rwa [show submitted [] = [] from rfl, List.append_nil]
  | cons c cs ih =>
    cases c with
    | submit r =>
      obtain ⟨running, h⟩ := replay_submit h
      have hrun := ih (h₀.submit r running) h
      rwa [List.append_assoc] at hrun
    | act a =>
      unfold Dispatcher.replay at h
      split at h
      · next hs => exact ih (h₀.act a hs) h
      · cases h

/-! ### What clients do to custody -/

theorem custody_submit (p : Setup σ η κ) (h : d.InBalance) (r : Submission) :
    (d.submit p r).heaps = d.heaps ∧ (d.submit p r).custody = d.custody := by
  have hid : (Work.ofSubmission d.nextId p.ownHeap r).id = d.nextId := by cases r <;> rfl
  have hop : (Work.ofSubmission d.nextId p.ownHeap r).op = r.op := by cases r <;> rfl
  -- neither the new work nor the new ticket owns a block
  have hclaims : ∀ w : Work, w.leases = 0 →
      claims (w ::ₘ d.held) (d.register r.op).tickets = d.custody := by
    intro w hw
    have htickets : ((d.register r.op).tickets : Multiset Ticket) =
        ({ op := r.op } : Ticket) ::ₘ (d.tickets : Multiset Ticket) :=
      Multiset.coe_eq_coe.mpr (List.perm_append_singleton _ _)
    rw [claims_cons, hw, zero_add]
    unfold claims
    rw [htickets, Multiset.cons_bind]
    exact congrArg _ (zero_add _)
  rcases submit_eq p d r with ⟨e, -, hs⟩ | ⟨path, -, hs⟩
  · rw [hs]
    have hb := Balanced.register (w := Work.ofSubmission d.nextId p.ownHeap r) h hid hop
    obtain ⟨hheaps, hfail⟩ := hb.claims_fail (.path e)
    refine ⟨hheaps, ?_⟩
    unfold custody
    rw [held_fail]
    refine hfail.trans (hclaims _ ?_)
    cases r <;> rfl
  · rw [hs]
    refine ⟨rfl, Eq.trans ?_ (hclaims { Work.ofSubmission d.nextId p.ownHeap r with path } ?_)⟩
    · unfold custody
      refine congrArg (claims · _) ?_
      unfold held register
      simp only [List.map_append, List.map_cons, List.map_nil, ← Multiset.coe_add,
        Multiset.coe_singleton, ← Multiset.singleton_add]
      abel
    · cases r <;> rfl

theorem custody_setTicket {id : WorkId} {t : Ticket} (h : d.tickets[id]? = some t) (t' : Ticket) :
    ∃ rest, d.custody = t.leases + rest ∧ (d.setTicket id t').custody = t'.leases + rest :=
  claims_set h d.held t'

theorem custody_look (d : Dispatcher σ κ) (id : WorkId) : d.Passes (d.look id) := by
  unfold Dispatcher.look
  split
  · next t ht =>
    obtain ⟨rest, hold, hnew⟩ := custody_setTicket (done?_eq_some ht).1 t.look.2
    exact ⟨rfl, by rw [hnew, hold, Ticket.leases_look]⟩
  · exact ⟨rfl, rfl⟩

theorem custody_poll (d : Dispatcher σ κ) (id : WorkId) (waker : Nat) :
    d.Passes (d.poll id waker).2 := by
  unfold Dispatcher.poll
  split
  · next t ht =>
    obtain ⟨rest, hold, hnew⟩ := custody_setTicket ht { t with done := (t.done.poll waker).2 }
    exact ⟨rfl, by rw [hold]; exact hnew⟩
  · exact ⟨rfl, rfl⟩

theorem custody_beginHalt (d : Dispatcher σ κ) : d.Passes d.beginHalt := by
  unfold Dispatcher.beginHalt
  split
  · split <;> exact ⟨rfl, rfl⟩
  · exact ⟨rfl, rfl⟩

theorem custody_take (d : Dispatcher σ κ) (id : WorkId) : (d.take id).2.heaps = d.heaps ∧
    d.custody = (d.take id).2.custody + Ticket.takenLeases (d.take id).1 := by
  unfold Dispatcher.take
  split
  · next t ht =>
    obtain ⟨rest, hold, hnew⟩ := custody_setTicket (done?_eq_some ht).1 t.take.2
    refine ⟨rfl, ?_⟩
    rw [hnew, hold, Ticket.leases_take t]
    abel
  · exact ⟨rfl, (add_zero _).symm⟩

theorem traded_dropHandle (id : WorkId) (hl : d.heaps.Ledger (d.custody + taken)) :
    d.heaps.Traded (d.custody + taken) (d.dropHandle id).heaps
      ((d.dropHandle id).custody + taken) := by
  unfold Dispatcher.dropHandle
  split
  · next t ht =>
    obtain ⟨rest, hold, hnew⟩ := custody_setTicket (done?_eq_some ht).1 t.drop.2
    obtain ⟨hdrop, hgone⟩ := Ticket.leases_drop t
    have hcustody : ((d.release t.drop.1).setTicket id t.drop.2).custody = rest := by
      rw [hgone, zero_add] at hnew
      exact hnew
    rw [hcustody]
    rw [hold, ← hdrop, add_assoc] at hl ⊢
    exact WorkBuffer.traded_drop hl
  · exact .refl _ _

/-! ### Whole runs -/

/-- All that happens to the heaps in a lawful run are dealings of the owners of blocks. -/
theorem Lawful.traded (h₀ : Unused p d₀) (hl : d₀.heaps.Ledger 0) (h : Lawful p d₀ rs taken d) :
    d₀.heaps.Traded 0 d.heaps (d.custody + taken) := by
  have hb : ∀ {rs taken d}, Lawful p d₀ rs taken d → d.InBalance := fun h =>
    h.run.balanced h₀.inBalance
  induction h with
  | start =>
    have hcustody : d₀.custody = 0 := by
      unfold custody claims held
      rw [h₀.waiting, h₀.queues, h₀.tasks, h₀.tickets]
      rfl
    rw [hcustody, add_zero]
    exact .refl _ _
  | submit r h _ ih =>
    obtain ⟨hheaps, hcustody⟩ := custody_submit p (hb h) r
    rw [hheaps, hcustody]
    exact ih
  | act h a hs ih => exact ih.trans ((hb h).trades (transition_of_step hs) (ih.ledger hl))
  | @beginHalt _ _ d _ ih =>
    obtain ⟨hheaps, hcustody⟩ := custody_beginHalt d
    rw [hheaps, hcustody]
    exact ih
  | @look _ _ d _ id ih =>
    obtain ⟨hheaps, hcustody⟩ := custody_look d id
    rw [hheaps, hcustody]
    exact ih
  | @poll _ _ d _ id waker ih =>
    obtain ⟨hheaps, hcustody⟩ := custody_poll d id waker
    rw [hheaps, hcustody]
    exact ih
  | @take _ taken d _ id ih =>
    obtain ⟨hheaps, hcustody⟩ := custody_take d id
    rw [hheaps, ← add_assoc, ← hcustody]
    exact ih
  | dropHandle _ id ih => exact ih.trans (traded_dropHandle id (ih.ledger hl))
  | @dropTaken _ taken d b _ ih =>
    have hledger := ih.ledger hl
    rw [Multiset.add_cons] at ih hledger
    exact ih.trans (Heaps.traded_dropBuffer hledger)

theorem Run.letGo (h₀ : Unused p d₀) (h : Run p d₀ rs d) : ∀ t ∈ d.tickets, t.LetGo := by
  have step : ∀ {O : WorkId → Outcome → Prop} {ts ts' : List Ticket}, ts'.length = ts.length →
      (∀ (id : WorkId) (t : Ticket), ts[id]? = some t →
        ∃ t', ts'[id]? = some t' ∧ t.Change (O id) t') →
      (∀ t ∈ ts, t.LetGo) → ∀ t ∈ ts', t.LetGo := by
    intro O ts ts' hlen hchange hall t' ht'
    obtain ⟨id, hlt, rfl⟩ := List.getElem_of_mem ht'
    obtain ⟨u, hu, c⟩ := hchange id _ (List.getElem?_eq_getElem (hlen ▸ hlt))
    rw [List.getElem?_eq_getElem hlt] at hu
    obtain rfl := Option.some.inj hu
    exact (hall _ (List.getElem_mem _)).change c
  induction h with
  | start =>
    rw [h₀.tickets]
    exact fun t ht => absurd ht List.not_mem_nil
  | @submit rs d r _ _ ih =>
    have hp := publishes_submit p d r
    refine step hp.length (fun _ _ ht => hp.change ht) fun t ht => ?_
    rcases List.mem_append.mp ht with ht | ht
    · exact ih t ht
    · obtain rfl := List.mem_singleton.mp ht
      exact fun hd => absurd hd (by simp)
  | move _ m ih => exact step m.length (fun _ _ ht => m.ticket ht) ih

/-- That work waits for a slot without a block. -/
def emptyHanded : Placement where
  waiting _ w := w.leases = 0
  queued _ _ _ := True
  busy _ _ := True
  handing _ _ := True

theorem stable_emptyHanded (p : Setup σ η κ) : emptyHanded.Stable p where
  submit _ r _ := by cases r <;> rfl
  push _ _ _ := trivial
  pop _ _ _ _ := trivial
  ready _ _ _ _ _ _ _ _ := trivial
  hand _ _ _ := trivial

theorem Run.leases_waiting (h₀ : Unused p d₀) (h : Run p d₀ rs d) :
    ∀ x ∈ d.waiting, x.2.leases = 0 :=
  (h.holds (stable_emptyHanded p) (h₀.holds emptyHanded)).waiting

/-- Nothing is in custody any more where all handles are dropped. -/
theorem Run.custody_eq_zero (h₀ : Unused p d₀) (h : Run p d₀ rs d)
    (hd : ∀ t ∈ d.tickets, t.dropped = true) : d.custody = 0 := by
  have hb := h.balanced h₀.inBalance
  have hgone := h.letGo h₀
  have hheld : d.held = 0 := by
    refine Multiset.eq_zero_of_forall_notMem fun w hw => ?_
    obtain ⟨t, ht, hp, -⟩ := hb.pending_of_mem hw
    have hmem := List.mem_of_getElem? ht
    rw [(hgone t hmem (hd t hmem)).1] at hp
    cases hp
  have htickets : (d.tickets : Multiset Ticket).bind Ticket.leases = 0 := by
    refine Multiset.eq_zero_of_forall_notMem fun l hl => ?_
    obtain ⟨t, ht, hlt⟩ := Multiset.mem_bind.mp hl
    rw [Ticket.leases_of_handedOver (hgone t ht (hd t ht)).2] at hlt
    exact Multiset.notMem_zero l hlt
  unfold custody claims
  rw [hheld, htickets]
  rfl

/-- That the blocks of all heaps are accounted for. -/
structure AccountedFor (d₀ : Dispatcher σ κ) (taken : Multiset Lease) (d : Dispatcher σ κ) :
    Prop where
  /-- The live blocks of a tracking heap are those that were asked for through it and are in custody
      or were taken over, each of them once. -/
  live : ∀ t books, d.heaps.books? t = some books → (books.entries : Multiset (Nat × Nat)) =
    ((d.custody + taken).filter fun l => t ∈ d.heaps.trackers l.heap).map Lease.entry
  /-- No block has two owners. -/
  distinct : ((d.custody + taken).map Lease.address).Nodup
  /-- Those who wait own none. -/
  waiting : ∀ x ∈ d.waiting, x.2.leases = 0
  /-- In the list of all dealings each block was lent once, and what was lent is in custody, was
      taken over or was returned, and that once: by its owner, to the heap that it came from, with
      its layout, and known to all books. -/
  log : ∃ ds, d₀.heaps.Trades 0 ds d.heaps (d.custody + taken) ∧
    ((Heaps.lent ds).map Lease.address).Nodup ∧
    Heaps.lent ds = d.custody + taken + Heaps.returned ds
  /-- Once all handles and all buffers that were taken over are dropped, no block is live, whether
      or not the dispatcher has stopped. -/
  released : (∀ t ∈ d.tickets, t.dropped = true) → taken = 0 →
    ∀ t books, d.heaps.books? t = some books → books.count = 0 ∧ books.bytes = 0

/-- Over whatever heaps, if nothing is in their books at the start: after any lawful run, with
    whatever failures, refusals and crashes, all blocks are accounted for. -/
theorem Lawful.accounted (h₀ : Fresh p d₀)
    (hempty : ∀ t books, d₀.heaps.books? t = some books → books.live = [])
    (h : Lawful p d₀ rs taken d) : AccountedFor d₀ taken d := by
  have hu := h₀.unused
  have hzero := Heaps.ledger_zero hempty
  have htraded := h.traded hu hzero
  have hledger := htraded.ledger hzero
  obtain ⟨ds, htrades⟩ := htraded
  have honce := (htrades.once hzero).1
  have hbalance := htrades.balance
  rw [zero_add] at honce hbalance
  refine ⟨hledger.books, hledger.distinct, h.run.leases_waiting hu, ⟨ds, htrades, honce, hbalance⟩,
    fun hd ht t books hb => ?_⟩
  have hentries := hledger.books t books hb
  rw [h.run.custody_eq_zero hu hd, ht] at hentries
  have hnil : books.entries = [] := (Multiset.coe_eq_zero _).mp hentries
  exact ⟨by rw [Books.count_eq, hnil]; rfl, Books.bytes_eq_zero hnil⟩

/-! ### A write that fails in the second stage -/

/-- The machine's memory and a tracking heap around it. -/
def trackedHeaps : Heaps := (Heaps.initial.addTracking Heaps.systemHeap false).2

/-- A setup over scripted files that takes its buffers from the tracking heap. -/
def trackedSetup : Setup Backend.Scripted.Store Backend.Scripted.Handle Unit :=
  { scriptedSetup 1 {} with ownHeap := 1 }

/-- A dispatcher that was just started there, if it can be. The file `f` cannot be opened. -/
def tracked? : Option (Dispatcher Backend.Scripted.Store Unit) :=
  (start trackedSetup ⟨⟨[], 1⟩, fun _ => none⟩ trackedHeaps
    (({} : Backend.Scripted.Store).setFaults "f" { openFile := some (.fail (.os 5)) })
    ()).answer.toOption

theorem live_trackedHeaps : ∀ t books, trackedHeaps.books? t = some books → books.live = [] := by
  rintro (_ | _ | t) books h <;> cases h
  rfl

/-- The frame of a compressed write is live while its ticket refers to it, and is given back when
    the handle is dropped. -/
theorem accounted_for_failed_write : ∃ d₀ d books, Fresh trackedSetup d₀ ∧
    Lawful trackedSetup d₀ [.write "f" [1] true] 0 d ∧ d.heaps.books? 1 = some books ∧
    books.count = 1 ∧ AccountedFor d₀ 0 d ∧ AccountedFor d₀ 0 (d.dropHandle 0) ∧ ∀ t books,
      (d.dropHandle 0).heaps.books? t = some books → books.count = 0 ∧ books.bytes = 0 := by
  let cues : List Cue :=
    [.submit (.write "f" [1] true), .act (.push 0), .act (.pop .compression),
      .act (.process .compression), .act (.hand .compression), .act (.pop .io),
      .act (.process .io)]
  have h : (tracked?.bind (replay trackedSetup cues)).any (fun d =>
      (d.heaps.books? 1).map Books.count = some 1 ∧
        (d.dropHandle 0).tickets.map Ticket.dropped = [true]) = true := by
    decide +kernel
  obtain ⟨d, hd, hcheck⟩ := Option.any_eq_true _ _ |>.mp h
  obtain ⟨hcount, hdropped⟩ := of_decide_eq_true hcheck
  obtain ⟨d₀, h₀, hr⟩ := Option.bind_eq_some_iff.mp hd
  obtain ⟨books, hbooks, hone⟩ := Option.map_eq_some_iff.mp hcount
  have hfresh : Fresh trackedSetup d₀ := fresh_of_start h₀
  have hheaps : ∀ d₀, tracked? = some d₀ → d₀.heaps = trackedHeaps := by
    intro d₀ h
    cases h
    rfl
  have hempty : ∀ t books, d₀.heaps.books? t = some books → books.live = [] := by
    rw [hheaps d₀ h₀]
    exact live_trackedHeaps
  have hlawful : Lawful trackedSetup d₀ [.write "f" [1] true] 0 d := Lawful.start.replay hr
  have hlast := Lawful.accounted hfresh hempty (hlawful.dropHandle 0)
  refine ⟨d₀, d, books, hfresh, hlawful, hbooks, hone, Lawful.accounted hfresh hempty hlawful,
    hlast, hlast.released (fun t ht => ?_) rfl⟩
  have hmem := List.mem_map_of_mem (f := Ticket.dropped) ht
  rw [hdropped] at hmem
  exact List.mem_singleton.mp hmem

end Dispatcher

end FilePipeline
