import FilePipeline.Proofs.Dispatcher.Orderly
import FilePipeline.Proofs.Dispatcher.Rest
import FilePipeline.Proofs.Stage.Errors

/-! # Clean shutdown

If no worker crashes, stopping succeeds and no work is stranded (`Recorded.shuts_down`): the pill finds
each queue empty behind it, so a worker that leaves has nothing to drop, and no queue is closed while
anybody still has something for it. -/

namespace FilePipeline.Dispatcher

variable {σ η κ : Type} {p : Setup σ η κ} {d d' d₀ : Dispatcher σ κ} {rs : List Submission}
  {ts : List (Turn σ κ)}

/-! ### Nothing is abandoned -/

/-- Where things are in order no work is dropped between two turns. -/
theorem Orderly.not_dropped {l : Leg} (h : Orderly l d) (hg : d.outline.Guided) {a : Action}
    {w : Work} (ha : ∀ s, a ≠ .process s) (he : EndsIn p d a w (.error .abandoned)) : False := by
  cases he with
  | @turnedAway i s w hw hq =>
    obtain ⟨-, rfl⟩ := h.before_of_waiting hw
    rcases h.leg_of_closed hg (closed_of_offer hq) with he | ⟨he, -⟩ <;> cases he
  | processed | crashed => exact ha _ rfl
  | @refused s w ht hq =>
    have htask := h.task s
    rw [ht] at htask
    rcases h.leg_of_closed hg (closed_of_forward? hq) with rfl | ⟨rfl, hp⟩
    · cases s <;> rcases htask with htask | htask <;> cases htask
    · cases s with
      | io => rcases htask with htask | ⟨v, htask, -⟩ <;> cases htask
      | compression => cases hp
  | @left s c w ht hw =>
    rw [h.works_eq_nil (by rw [ht]; rfl)] at hw
    cases hw
  | @closed s e w hh hw =>
    obtain rfl := h.home_of_closing hg hh
    have hn := h.worksOf_eq_nil (.queue s)
    rw [show (d.queues.get s).works = [] from hn] at hw
    cases hw

theorem raises_of_processing {s : Stage} {w w' : Work} {d₁ : Dispatcher σ κ} {e : WorkError}
    (h : d.processing p s w = (d₁, w', .error (.error e))) : s.Raises e := by
  cases s with
  | io => exact Stage.raises_processIo (congrArg (fun r => r.2.2) h)
  | compression => exact Stage.raises_processCompression (congrArg (fun r => r.2.2) h)

theorem Ending.ne_abandoned {id : WorkId} {o : Outcome} (h₀ : Unused p d₀)
    (hc : ∀ t ∈ ts, t.crashed p = false) (h : Ending p d₀ rs ts id o) :
    o.result ≠ .error .abandoned := by
  cases h with
  | unfit => exact fun he => by cases he
  | @turn t r ht hid hr hh =>
    rintro rfl
    exact (raises_of_processing (e := .abandoned) (Prod.ext rfl (Prod.ext rfl hr))).ne_abandoned rfl
  | crashed ht hid hcr => rw [hc _ ht] at hcr; cases hcr
  | @dropped rs₁ ts₁ d₁ a w hrec hts hid ha he =>
    obtain ⟨l, hl⟩ := hrec.orderly h₀ fun t ht => hc t (hts.subset ht)
    exact (hl.not_dropped (hrec.run.guided h₀) ha he).elim

/-! ### Clean shutdown -/

/-- What a run without crashes that has submitted `rs` looks like, while it stops and afterwards. -/
structure ShutsDown (p : Setup σ η κ) (rs : List Submission) (d : Dispatcher σ κ) : Prop where
  /-- Stopping succeeds, and then all work has ended. -/
  stopped : ∀ e, d.halt = .stopped e →
    e = none ∧ ∀ id < rs.length, ∃ t, d.tickets[id]? = some t ∧ t.isDone = true
  /-- It does come to its end. -/
  rest : Resting p d → d.halt ≠ .running → d.halt = .stopped none
  /-- No work ends as abandoned. -/
  served : ∀ t ∈ d.tickets, t.isDone = true → t.result ≠ .error .abandoned
  /-- A worker that has left its loop has left no work in its queue. -/
  left : ∀ s, (d.tasks.get s).post.hasLeft = true → (d.queues.get s).works = []
  /-- Once the compression worker has taken the pill, what is held are writes before the I/O stage:
      the pill has overtaken no compressed read. -/
  passed : d.tasks.compression = .relaying ∨ d.tasks.compression.post.hasLeft = true →
    ∀ h, ∀ w ∈ d.worksOf h, w.op = .write ∧ (h = .queue .io ∨ h = .worker .io)
  /-- Once the I/O worker has taken it for the second time, nobody holds any work: it has overtaken no
      compressed write either. -/
  home : d.tasks.io.post.hasLeft = true → ∀ h, d.worksOf h = []

/-- If no worker crashes, then whatever is submitted and in whatever order things happen, stopping
    succeeds and strands nothing. -/
theorem Recorded.shuts_down (h₀ : Fresh p d₀) (h : Recorded p d₀ rs ts d)
    (hc : ∀ t ∈ ts, t.crashed p = false) : ShutsDown p rs d := by
  have hu := h₀.unused
  obtain ⟨l, hl⟩ := h.orderly hu hc
  have hb := h.run.balanced hu.inBalance
  have no_error : ∀ {e : Option JoinError}, (e.isSome = true ↔ ∃ t ∈ ts, t.crashed p = true) →
      e = none := by
    intro e he
    by_contra hn
    obtain ⟨t, ht, htc⟩ := he.mp (Option.isSome_iff_ne_none.mpr hn)
    rw [hc t ht] at htc
    cases htc
  have home : d.tasks.io.post.hasLeft = true → ∀ x, d.worksOf x = [] := by
    intro hio x
    rcases hl.leg_of_left (s := .io) hio with rfl | ⟨-, hs⟩
    · exact hl.worksOf_eq_nil x
    · cases hs
  refine ⟨fun e he => ?_, fun hr hh => ?_, fun t ht hd => ?_, fun _ => hl.works_eq_nil,
    fun ht x w => hl.write_of_mem ht, home⟩
  · obtain ⟨hgone, hcrash⟩ := h.stopped_iff hu he
    refine ⟨no_error hcrash, fun id hid => ?_⟩
    have hlt : id < d.tickets.length := by
      rw [h.run.length hu.tickets]
      exact hid
    obtain ⟨c, hio⟩ := hgone .io
    have hn := held_eq_zero (home (by rw [show d.tasks.io = _ from hio]; rfl))
    exact ⟨_, List.getElem?_eq_getElem hlt, hb.ended hn hlt⟩
  · obtain ⟨e, he, -, hcrash⟩ := (h.at_rest hu hr).stopped hh
    rw [he, no_error hcrash]
  · obtain ⟨id, hlt, rfl⟩ := List.getElem_of_mem ht
    obtain ⟨o, hshows, hend⟩ := h.ending hu (List.getElem?_eq_getElem hlt) hd
    have hne := hend.ne_abandoned hu hc
    rw [← hshows.result] at hne
    exact hne

/-- The stopping begins while a compressed write is on its way, and the write still comes back before
    the pill. -/
theorem shuts_down_behind_write :
    ∃ d₀ d ts, Fresh (scriptedSetup 1 {}) d₀ ∧
      Recorded (scriptedSetup 1 {}) d₀ [.write "" [1] true] ts d ∧
      (∀ t ∈ ts, t.crashed (scriptedSetup 1 {}) = false) ∧
      (d.halt = .stopped none ∧ d.tickets.map Ticket.isDone = [true]) ∧
      ShutsDown (scriptedSetup 1 {}) [.write "" [1] true] d := by
  let cues : List Cue := [.submit (.write "" [1] true), .act (.push 0)]
  let stop : List Cue :=
    [.act .halt, .act (.pop .io), .act (.relay .io), .act (.pop .compression),
      .act (.process .compression), .act (.hand .compression), .act (.pop .compression),
      .act (.relay .compression), .act (.leave .compression), .act (.pop .io), .act (.process .io),
      .act (.pop .io), .act (.leave .io), .act .halt, .act .halt, .act .halt, .act .halt]
  have h : ((scripted? 1 {} {}).bind fun d =>
      (replay (scriptedSetup 1 {}) cues d).bind fun d =>
        replay (scriptedSetup 1 {}) stop d.beginHalt).any
      (fun d => (d.halt = .stopped none ∧ d.tickets.map Ticket.isDone = [true]) ∧
        d.tasks.io.crashed = false ∧ d.tasks.compression.crashed = false) = true := by
    decide +kernel
  obtain ⟨d, hd, hend⟩ := Option.any_eq_true _ _ |>.mp h
  obtain ⟨d₀, h₀, hr⟩ := Option.bind_eq_some_iff.mp hd
  obtain ⟨ts, hts⟩ := recorded_of_replay hr
  obtain ⟨hstopped, hio, hcompression⟩ := of_decide_eq_true hend
  have hc := hts.crash_free (fresh_scripted h₀).unused
    (fun s => by cases s; exacts [hio, hcompression])
  exact ⟨d₀, d, ts, fresh_scripted h₀, hts, hc, hstopped,
    Recorded.shuts_down (fresh_scripted h₀) hts hc⟩

end FilePipeline.Dispatcher
