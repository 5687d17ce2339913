import FilePipeline.Dispatcher.Client
import FilePipeline.Proofs.Dispatcher.Tickets
import FilePipeline.Proofs.Stage.Garbage
import FilePipeline.Proofs.Ticket.Accessors
import Mathlib.Data.List.InsertIdx

/-! # What a dispatcher makes of garbage

`clean` is carried over to everything that holds a buffer or a heap, up to the dispatcher as a whole. What
is not the processing of work only passes buffers on or drops them, and so commutes with `clean`. Together
with what is known of the stages, whatever can happen next to a dispatcher can happen to one that is the
same but for garbage, and leaves them so (`step_of_clean`). -/

namespace FilePipeline

/-! ### Tickets -/

def Outcome.clean (o : Outcome) : Outcome := { o with buffer := o.buffer.clean }

/-- The answer of a handle, with the buffer clean that it hands over. -/
def Response.clean : Response → Response
  | .take b => .take (b.map Buffer.clean)
  | a => a

namespace Ticket

def clean (t : Ticket) : Ticket :=
  { t with slot := t.slot.map Outcome.clean, seen := t.seen.map Outcome.clean }

theorem look_clean (t : Ticket) : t.clean.look = (t.look.1.clean, t.look.2.clean) := by
  obtain ⟨op, done, slot, seen, dropped⟩ := t
  cases seen with
  | some o => rfl
  | none => cases slot <;> rfl

theorem take_clean (t : Ticket) : t.clean.take = (t.take.1.map Buffer.clean, t.take.2.clean) := by
  have hop : t.clean.op = t.op := rfl
  unfold take
  rw [hop]
  cases t.op with
  | write => rfl
  | read =>
    dsimp only
    rw [look_clean]
    obtain ⟨⟨result, buffer, size⟩, t'⟩ := t.look
    cases buffer <;> rfl

theorem drop_clean (t : Ticket) : t.clean.drop = (t.drop.1.clean, t.drop.2.clean) := by
  unfold drop
  rw [look_clean]
  rfl

/-- What a handle answers has nothing to do with garbage. -/
theorem answer_clean (t : Ticket) (a : Accessor) : t.clean.answer a = (t.answer a).clean := by
  have hlook : t.clean.look.1 = t.look.1.clean := congrArg Prod.fst t.look_clean
  cases a with
  | isDone | wait | poll => rfl
  | take => exact congrArg (fun x => Response.take x.1) t.take_clean
  | result => exact congrArg (fun o => Response.result o.result) hlook
  | statusCode => exact congrArg (fun o => Response.statusCode (FilePipeline.statusCode o.result)) hlook
  | size => exact congrArg (fun o => Response.size o.size) hlook
  | buffer =>
    refine congrArg Response.buffer ?_
    unfold buffer
    rw [hlook]
    obtain ⟨result, buffer, size⟩ := t.look.1
    cases result with
    | error e => rfl
    | ok => exact buffer.bytes?_clean
  | terminated =>
    refine congrArg Response.terminated ?_
    have hop : t.clean.op = t.op := rfl
    unfold terminated
    rw [hlook, hop]
    obtain ⟨result, buffer, size⟩ := t.look.1
    cases buffer with
    | none | caller => rfl
    | owned b =>
      cases t.op with
      | write => rfl
      | read => exact b.terminated?_clean

theorem after_clean (t : Ticket) (a : Accessor) : t.clean.after a = (t.after a).clean := by
  cases a with
  | isDone | wait | poll => rfl
  | take => exact congrArg Prod.snd t.take_clean
  | _ => exact congrArg Prod.snd t.look_clean

end Ticket

/-! ### Queues and tasks -/

def Item.clean : Item Work → Item Work
  | .work w => .work w.clean
  | .pill => .pill

def Task.clean : Task → Task
  | .busy w => .busy w.clean
  | .handing w => .handing w.clean
  | t => t

namespace Queue

def clean (q : Queue Work) : Queue Work :=
  { q with entries := q.entries.map fun e => ⟨e.item.clean, e.counted⟩ }

theorem append_clean (q : Queue Work) (i : Item Work) (counted : Bool) :
    q.clean.append i.clean counted = (q.append i counted).clean := by
  unfold append clean
  rw [List.map_append]
  rfl

theorem forward?_clean (q : Queue Work) (i : Item Work) :
    q.clean.forward? i.clean = (q.forward? i).map clean := by
  have hclosed : q.clean.closed = q.closed := rfl
  unfold forward?
  rw [append_clean, hclosed]
  split <;> rfl

theorem close_clean (q : Queue Work) : q.clean.close = (q.close.1.map Item.clean, q.close.2.clean) := by
  have hitems : q.clean.items = q.items.map Item.clean := by
    unfold items clean
    rw [List.map_map, List.map_map]
    rfl
  unfold close
  rw [hitems]
  rfl

end Queue

/-- An attempt to push, with all work in the queue clean. -/
def Offer.clean : Offer Work → Offer Work
  | .accepted q => .accepted q.clean
  | .full => .full
  | .rejected => .rejected

def Pop.clean : Pop Work → Pop Work
  | .item i q => .item i.clean q.clean
  | .empty => .empty

theorem Queue.offer_clean (q : Queue Work) (i : Item Work) : q.clean.offer i.clean = (q.offer i).clean := by
  have hclosed : q.clean.closed = q.closed := rfl
  have hfull : (q.clean.capacity ≤ q.clean.admitted) = (q.capacity ≤ q.admitted) := rfl
  unfold offer
  rw [append_clean, hclosed]
  simp only [hfull]
  split
  · rfl
  · split <;> rfl

theorem Queue.pop?_clean (q : Queue Work) : q.clean.pop? = q.pop?.clean := by
  obtain ⟨capacity, entries, admitted, closed⟩ := q
  cases entries with
  | cons e rest => rfl
  | nil => cases closed <;> rfl

namespace Dispatcher

variable {σ η κ : Type} {p : Setup σ η κ} {d d' : Dispatcher σ κ}

/-- The dispatcher over heaps whose fresh blocks are all zeros, with everything in it clean. -/
def clean (d : Dispatcher σ κ) : Dispatcher σ κ :=
  { d with
    heaps := d.heaps.clean
    queues := ⟨d.queues.io.clean, d.queues.compression.clean⟩
    tasks := ⟨d.tasks.io.clean, d.tasks.compression.clean⟩
    waiting := d.waiting.map fun x => (x.1, x.2.clean)
    tickets := d.tickets.map Ticket.clean }

theorem queue_clean (d : Dispatcher σ κ) (s : Stage) : d.clean.queues.get s = (d.queues.get s).clean := by
  cases s <;> rfl

theorem task_clean (d : Dispatcher σ κ) (s : Stage) : d.clean.tasks.get s = (d.tasks.get s).clean := by
  cases s <;> rfl

theorem setQueue_clean (d : Dispatcher σ κ) (s : Stage) (q : Queue Work) :
    d.clean.setQueue s q.clean = (d.setQueue s q).clean := by
  cases s <;> rfl

theorem setTask_clean (d : Dispatcher σ κ) (s : Stage) (t : Task) :
    d.clean.setTask s t.clean = (d.setTask s t).clean := by
  cases s <;> rfl

theorem ticket_clean (d : Dispatcher σ κ) (id : WorkId) :
    d.clean.tickets[id]? = d.tickets[id]?.map Ticket.clean := List.getElem?_map

theorem setTicket_clean (d : Dispatcher σ κ) (id : WorkId) (t : Ticket) :
    d.clean.setTicket id t.clean = (d.setTicket id t).clean :=
  congrArg (fun ts => { d.clean with tickets := ts }) List.map_set.symm

theorem release_clean (d : Dispatcher σ κ) (b : WorkBuffer) :
    d.clean.release b.clean = (d.release b).clean :=
  congrArg (fun hs => { d.clean with heaps := hs }) (b.drop_clean d.heaps)

theorem settle_clean (d : Dispatcher σ κ) (w : Work) (r : Except WorkError Unit) :
    d.clean.settle w.clean r = (d.settle w r).clean := by
  have hid : w.clean.id = w.id := rfl
  unfold settle
  rw [hid, ticket_clean]
  cases d.tickets[w.id]? with
  | none => exact d.release_clean w.buffer
  | some t =>
    have hdone : t.clean.isDone = t.isDone := rfl
    simp only [Option.map_some]
    rw [hdone]
    split
    · exact d.release_clean w.buffer
    · exact setTicket_clean { d with stats := d.stats.recordCompleted w.op r w.size } w.id
        (t.publish (w.outcome r))

theorem fail_clean (d : Dispatcher σ κ) (w : Work) (e : WorkError) :
    d.clean.fail w.clean e = (d.fail w e).clean := (d.notice (.workFailed e)).settle_clean w (.error e)

theorem abandonAll_clean (d : Dispatcher σ κ) (items : List (Item Work)) :
    d.clean.abandonAll (items.map Item.clean) = (d.abandonAll items).clean := by
  induction items generalizing d with
  | nil => rfl
  | cons i items ih =>
    cases i with
    | pill => exact ih d
    | work w =>
      show (d.clean.settle w.clean (.error .abandoned)).abandonAll (items.map Item.clean) = _
      rw [settle_clean]
      exact ih (d.abandon w)

theorem failAll_clean (d : Dispatcher σ κ) (items : List (Item Work)) :
    d.clean.failAll (items.map Item.clean) = (d.failAll items).clean := by
  induction items generalizing d with
  | nil => rfl
  | cons i items ih =>
    cases i with
    | pill => exact ih d
    | work w =>
      show (d.clean.fail w.clean .abandoned).failAll (items.map Item.clean) = _
      rw [fail_clean]
      exact ih (d.fail w .abandoned)

/-! ### Steps that process nothing -/

theorem push_clean (d : Dispatcher σ κ) (i : Nat) : d.clean.push i = (d.push i).map clean := by
  have hwaiting : d.clean.waiting[i]? = d.waiting[i]?.map fun x => (x.1, x.2.clean) := List.getElem?_map
  have hrest : ({ d.clean with waiting := d.clean.waiting.eraseIdx i } : Dispatcher σ κ) =
      ({ d with waiting := d.waiting.eraseIdx i } : Dispatcher σ κ).clean :=
    congrArg (fun ws => { d.clean with waiting := ws }) (List.eraseIdx_map _ _ _)
  unfold push
  rw [hwaiting]
  rcases d.waiting[i]? with _ | ⟨s, w⟩
  · rfl
  · have hoffer : (d.clean.queues.get s).offer (.work w.clean) =
        ((d.queues.get s).offer (.work w)).clean := by
      rw [queue_clean]
      exact Queue.offer_clean _ (.work w)
    simp only [Option.map_some]
    rw [hoffer, hrest]
    cases (d.queues.get s).offer (.work w) with
    | accepted q => exact congrArg some (setQueue_clean _ s q)
    | full => rfl
    | rejected =>
      dsimp only [Offer.clean]
      rw [fail_clean]
      rfl

theorem afterPill_clean (d : Dispatcher σ κ) (s : Stage) : d.clean.afterPill s = (d.afterPill s).clean := by
  cases s with
  | compression => rfl
  | io =>
    show (if d.draining then Task.leaving false else .relaying) = (if d.draining then _ else _ : Task).clean
    split <;> rfl

theorem pop_clean (d : Dispatcher σ κ) (s : Stage) : d.clean.pop s = (d.pop s).map clean := by
  have hset : ∀ (q : Queue Work) (t : Task),
      (d.clean.setQueue s q.clean).setTask s t.clean = ((d.setQueue s q).setTask s t).clean := fun q t => by
    rw [setQueue_clean, setTask_clean]
  unfold pop
  rw [task_clean, queue_clean, Queue.pop?_clean, afterPill_clean]
  cases d.tasks.get s with
  | idle =>
    cases (d.queues.get s).pop? with
    | empty => rfl
    | item i q =>
      cases i with
      | work w => exact congrArg some (hset q (.busy w))
      | pill => exact congrArg some (hset q (d.afterPill s))
  | _ => rfl

theorem hand_clean (d : Dispatcher σ κ) (s : Stage) : d.clean.hand s = (d.hand s).map clean := by
  unfold hand
  rw [task_clean, queue_clean]
  cases d.tasks.get s with
  | handing w =>
    have hforward : (d.queues.get s.peer).clean.forward? (.work w.clean) =
        ((d.queues.get s.peer).forward? (.work w)).map Queue.clean := Queue.forward?_clean _ (.work w)
    dsimp only [Task.clean]
    rw [hforward]
    cases (d.queues.get s.peer).forward? (.work w) with
    | none =>
      have habandon : d.clean.abandon w.clean = (d.abandon w).clean := d.settle_clean w _
      simp only [Option.map_none]
      rw [habandon]
      exact congrArg some (setTask_clean _ s .idle)
    | some q =>
      simp only [Option.map_some]
      rw [setQueue_clean]
      exact congrArg some (setTask_clean _ s .idle)
  | _ => rfl

theorem relay_clean (d : Dispatcher σ κ) (s : Stage) : d.clean.relay s = (d.relay s).map clean := by
  have hforward : (d.queues.get s.peer).clean.forward? .pill =
      ((d.queues.get s.peer).forward? .pill).map Queue.clean := Queue.forward?_clean _ .pill
  unfold relay
  rw [task_clean, queue_clean, hforward]
  cases d.tasks.get s with
  | relaying =>
    cases s <;> cases (d.queues.get _).forward? .pill <;> rfl
  | _ => rfl

theorem sendPill_clean (d : Dispatcher σ κ) (s : Stage) : d.clean.sendPill s = (d.sendPill s).clean := by
  have hforward : (d.queues.get s).clean.forward? .pill =
      ((d.queues.get s).forward? .pill).map Queue.clean := Queue.forward?_clean _ .pill
  unfold sendPill
  rw [queue_clean, hforward]
  cases (d.queues.get s).forward? .pill with
  | none => rfl
  | some q => exact d.setQueue_clean s q

theorem leave_clean (d : Dispatcher σ κ) (s : Stage) : d.clean.leave s = (d.leave s).map clean := by
  unfold leave
  rw [task_clean, queue_clean]
  cases d.tasks.get s with
  | leaving crashed =>
    have hpill : ∀ d : Dispatcher σ κ, (if crashed then d.clean.sendPill s.peer else d.clean) =
        (if crashed then d.sendPill s.peer else d).clean := fun d => by
      cases crashed with
      | false => rfl
      | true => exact d.sendPill_clean s.peer
    dsimp only [Task.clean]
    rw [Queue.close_clean, setQueue_clean, hpill, abandonAll_clean]
    exact congrArg some (setTask_clean _ s (.gone crashed))
  | _ => rfl

theorem join_clean (d : Dispatcher σ κ) (s : Stage) (e : Option JoinError) :
    d.clean.join s e = (d.join s e).map clean := by
  have hworkers : d.clean.workers = d.workers := rfl
  unfold join
  rw [task_clean, hworkers]
  cases d.tasks.get s with
  | gone crashed =>
    simp only [Task.clean]
    cases (d.workers.get s).join crashed <;> rfl
  | _ => rfl

theorem haltStep_clean (d : Dispatcher σ κ) : d.clean.haltStep = d.haltStep.map clean := by
  have hhalt : d.clean.halt = d.halt := rfl
  unfold haltStep
  rw [hhalt]
  cases d.halt with
  | running | stopped => rfl
  | joining s e => exact d.join_clean s e
  | pushing =>
    have hoffer : d.clean.queues.io.offer .pill = (d.queues.io.offer .pill).clean :=
      Queue.offer_clean _ .pill
    dsimp only
    rw [hoffer]
    cases d.queues.io.offer .pill <;> rfl
  | closing s e =>
    dsimp only
    rw [queue_clean, Queue.close_clean, setQueue_clean, failAll_clean]
    cases s <;> rfl

theorem conclude_clean (d : Dispatcher σ κ) (s : Stage) (w : Work) (r : Attempt WorkError Unit) :
    d.clean.conclude s w.clean r = (d.conclude s w r).clean := by
  have hhands : handsOn s w.clean = handsOn s w := rfl
  rcases r with (e | c) | u
  · show (d.clean.settle w.clean (.error e)).setTask s .idle = _
    rw [settle_clean]
    exact setTask_clean _ s .idle
  · show (d.clean.settle w.clean (.error .abandoned)).setTask s (.leaving true) = _
    rw [settle_clean]
    exact setTask_clean _ s (.leaving true)
  · unfold conclude
    dsimp only
    rw [hhands]
    split
    · exact setTask_clean d s (.handing w)
    · rw [settle_clean]
      exact setTask_clean _ s .idle

theorem submit_clean (p : Setup σ η κ) (d : Dispatcher σ κ) (r : Submission) :
    d.clean.submit p r = (d.submit p r).clean := by
  have hid : d.clean.nextId = d.nextId := List.length_map _
  have hnew : d.clean.register r.op = (d.register r.op).clean := by
    unfold register clean
    rw [List.map_append]
    rfl
  -- new work has no buffer, or the submitter's bytes
  have hwork : (Work.ofSubmission d.nextId p.ownHeap r).clean = Work.ofSubmission d.nextId p.ownHeap r := by
    cases r <;> rfl
  unfold submit
  dsimp only
  rw [hid]
  cases PathField.ofString? r.path with
  | error e =>
    show (d.clean.register r.op).fail (Work.ofSubmission d.nextId p.ownHeap r) (.path e) = _
    rw [hnew, ← hwork, fail_clean, hwork]
    rfl
  | ok path =>
    show ({ d.clean.register r.op with waiting := d.clean.waiting ++
      [(firstStage r, { Work.ofSubmission d.nextId p.ownHeap r with path })] } : Dispatcher σ κ) = _
    have hwaiting : d.clean.waiting ++
          [(firstStage r, { Work.ofSubmission d.nextId p.ownHeap r with path })] =
        (d.waiting ++ [(firstStage r, { Work.ofSubmission d.nextId p.ownHeap r with path })]).map
          fun x : Stage × Work => (x.1, x.2.clean) := by
      rw [List.map_append]
      refine congrArg (fun w => d.clean.waiting ++ [(firstStage r, w)]) ?_
      exact congrArg (fun w => { w with path }) hwork.symm
    rw [hnew, hwaiting]
    rfl

/-! ### Any step -/

theorem update_of_clean (h : d.clean = d'.clean) {hs hs' : Heaps} (hh : hs.clean = hs'.clean) {s s' : σ}
    (hstate : s = s') {k k' : κ} (hk : k = k') :
    ({ d with heaps := hs, backend := s, codec := k } : Dispatcher σ κ).clean =
      ({ d' with heaps := hs', backend := s', codec := k' } : Dispatcher σ κ).clean := by
  subst hstate hk
  exact congrArg₂ (fun (d : Dispatcher σ κ) hs => { d with heaps := hs, backend := s, codec := k }) h hh

section

variable (hb : p.backend.KeepsToSpans) (hc : p.codec.KeepsToSpans) (h : d.clean = d'.clean)

include hb hc h

theorem process_of_clean (s : Stage) : (d.process p s).map clean = (d'.process p s).map clean := by
  have ht : (d.tasks.get s).clean = (d'.tasks.get s).clean := by rw [← task_clean, ← task_clean, h]
  have hheaps : d.clean.heaps = d'.clean.heaps := congrArg heaps h
  have hbackend : d.clean.backend = d'.clean.backend := congrArg backend h
  have hcodec : d.clean.codec = d'.clean.codec := congrArg codec h
  unfold process
  cases hd : d.tasks.get s with
  | busy w =>
    cases hd' : d'.tasks.get s with
    | busy w' =>
      rw [hd, hd'] at ht
      have hw : w.clean = w'.clean := Task.busy.inj ht
      cases s with
      | io =>
        have hr := Stage.processIo_of_clean hb hheaps hw d.backend
        have hd₁ := update_of_clean h hr.heaps hr.state hcodec
        dsimp only
        rw [← show d.backend = d'.backend from hbackend, Option.map_some, Option.map_some,
          ← conclude_clean, ← conclude_clean, hr.result, hr.work]
        exact congrArg (fun d => some (conclude d .io _ _)) hd₁
      | compression =>
        have hr := Stage.processCompression_of_clean hc hheaps hw d.codec
        have hd₁ := update_of_clean h hr.heaps hbackend hr.state
        dsimp only
        rw [← show d.codec = d'.codec from hcodec, Option.map_some, Option.map_some,
          ← conclude_clean, ← conclude_clean, hr.result, hr.work]
        exact congrArg (fun d => some (conclude d .compression _ _)) hd₁
    | _ => rw [hd, hd'] at ht; cases ht
  | _ => cases hd' : d'.tasks.get s <;> first | rfl | (rw [hd, hd'] at ht; cases ht)

/-- Whatever step can be made can be made by a dispatcher that is the same but for garbage, and they stay
the same. -/
theorem step_of_clean (a : Action) : (d.step p a).map clean = (d'.step p a).map clean := by
  cases a with
  | process s => exact process_of_clean hb hc h s
  | push i => exact (d.push_clean i).symm.trans ((congrArg (push · i) h).trans (d'.push_clean i))
  | pop s => exact (d.pop_clean s).symm.trans ((congrArg (pop · s) h).trans (d'.pop_clean s))
  | hand s => exact (d.hand_clean s).symm.trans ((congrArg (hand · s) h).trans (d'.hand_clean s))
  | relay s => exact (d.relay_clean s).symm.trans ((congrArg (relay · s) h).trans (d'.relay_clean s))
  | leave s => exact (d.leave_clean s).symm.trans ((congrArg (leave · s) h).trans (d'.leave_clean s))
  | halt => exact d.haltStep_clean.symm.trans ((congrArg haltStep h).trans d'.haltStep_clean)

end

end Dispatcher

end FilePipeline
