import FilePipeline.Dispatcher.Step

/-! # How stopping goes on

Whether a dispatcher comes to an end depends on little: what the workers are about to do, the pills in
the queues, which queues are closed, whether the I/O worker is draining, and how far the stopping is.
This is the `Outline` of a dispatcher, and `Outline.Step` lists what can become of it in one move.

The pill of the stopping goes to the I/O worker, on to the compression worker and back, and a worker
that crashes sends a pill to the other one. `Guided` says what this is good for: whoever is waited for
has left, or a pill is on its way to him. It is kept by every step (`Guided.step`), in whatever order
pills and crashes meet. -/

namespace FilePipeline

/-- What a worker is about to do, without the work. -/
inductive Post where
  | serving
  | relaying
  | leaving (crashed : Bool)
  | gone (crashed : Bool)
  deriving DecidableEq, Repr

/-- Whether a worker has stopped serving for good. -/
@[grind] def Post.hasLeft : Post → Bool
  | .leaving _ | .gone _ => true
  | _ => false

/-- How far a dispatcher is with coming to an end. -/
structure Outline where
  posts : PerStage Post
  pills : PerStage Nat
  closed : PerStage Bool
  draining : Bool
  halt : Halt

namespace Outline

attribute [grind] PerStage.get PerStage.set Stage.peer Dispatcher.afterJoin

/-- What a worker that took a pill does next. -/
@[grind] def afterPill (o : Outline) : Stage → Post
  | .io => if o.draining then .leaving false else .relaying
  | .compression => .relaying

/-- The outline after the worker of a stage turned to something else. -/
@[grind] def setPost (o : Outline) (s : Stage) (x : Post) : Outline :=
  { o with posts := o.posts.set x s }

/-- The outline with another number of pills in the queue of a stage. -/
@[grind] def setPills (o : Outline) (s : Stage) (n : Nat) : Outline :=
  { o with pills := o.pills.set n s }

/-- The outline after the queue of a stage was closed. -/
@[grind] def close (o : Outline) (s : Stage) : Outline :=
  { o with pills := o.pills.set 0 s, closed := o.closed.set true s }

/-- The outline after a pill was sent to a stage. -/
@[grind] def sendPill (o : Outline) (s : Stage) : Outline :=
  if o.closed.get s then o else o.setPills s (o.pills.get s + 1)

/-- What can become of an outline in one move. -/
inductive Step (o : Outline) : Outline → Prop
  | same : Step o o
  | took {s : Stage} (hs : o.posts.get s = .serving)
      (hp : 0 < o.pills.get s ∨ o.closed.get s = true) :
      Step o ((o.setPills s (o.pills.get s - 1)).setPost s (o.afterPill s))
  | crashed {s : Stage} (hs : o.posts.get s = .serving) : Step o (o.setPost s (.leaving true))
  | relayedOn (hs : o.posts.io = .relaying) (hc : o.closed.compression = false) :
      Step o { (o.sendPill .compression).setPost .io .serving with draining := true }
  | relayedBack (hs : o.posts.compression = .relaying) (hc : o.closed.io = false) :
      Step o ((o.sendPill .io).setPost .compression (.leaving false))
  | relayRefused {s : Stage} (hs : o.posts.get s = .relaying) (hc : o.closed.get s.peer = true) :
      Step o (o.setPost s (.leaving false))
  | left {s : Stage} (hs : o.posts.get s = .leaving false) :
      Step o ((o.close s).setPost s (.gone false))
  | leftCrashed {s : Stage} (hs : o.posts.get s = .leaving true) :
      Step o (((o.close s).sendPill s.peer).setPost s (.gone true))
  | begun (hh : o.halt = .running) : Step o { o with halt := .pushing }
  | pillPushed (hh : o.halt = .pushing) (hc : o.closed.io = false) :
      Step o { o.sendPill .io with halt := .joining .io none }
  | pillRejected (hh : o.halt = .pushing) (hc : o.closed.io = true) :
      Step o { o with halt := .joining .io none }
  | joined {s : Stage} {e : Option JoinError} (hh : o.halt = .joining s e)
      (hs : o.posts.get s = .gone false) : Step o { o with halt := Dispatcher.afterJoin s e }
  | joinedCrashed {s : Stage} {e : Option JoinError} (f : JoinError)
      (hh : o.halt = .joining s e) (hs : o.posts.get s = .gone true) :
      Step o { o with halt := Dispatcher.afterJoin s (e <|> some f) }
  | closedIo {e : Option JoinError} (hh : o.halt = .closing .io e) :
      Step o { o.close .io with halt := .closing .compression e }
  | closedCompression {e : Option JoinError} (hh : o.halt = .closing .compression e) :
      Step o { o.close .compression with halt := .stopped e }

/-! ### What is kept -/

/-- The pill of the stopping is still to be pushed. -/
@[grind] def Unsent (o : Outline) : Prop := o.halt = .running ∨ o.halt = .pushing

/-- What the stopping knows of the workers it has joined. -/
@[grind] def Heard (o : Outline) : Prop :=
  match o.halt with
  | .running | .pushing => True
  | .joining .io e => e = none
  | .joining .compression e => ∃ c, o.posts.io = .gone c ∧ e.isSome = c
  | .closing _ e | .stopped e =>
    ∃ c c', o.posts.io = .gone c ∧ o.posts.compression = .gone c' ∧ e.isSome = (c || c')

/-- The queues that are closed are those whose workers are gone. -/
@[grind] def Closed (o : Outline) : Prop :=
  ∀ s, o.closed.get s = true ↔ ∃ c, o.posts.get s = .gone c

/-- There is one pill between the stopping and its coming to the compression worker. -/
structure OnePill (o : Outline) : Prop where
  pills : o.pills.io ≤ 1
  relaying : o.posts.io = .relaying → o.pills.io = 0
  draining : o.draining = true → o.pills.io = 0 ∧ o.posts.io ≠ .relaying
  unsent : o.Unsent → o.pills.io = 0 ∧ o.posts.io ≠ .relaying ∧ o.draining = false

/-- The compression worker has a pill before it, or has met one. -/
@[grind] def Passed (o : Outline) : Prop :=
  0 < o.pills.compression ∨ o.posts.compression = .relaying ∨
    o.posts.compression = .leaving false ∨ o.posts.compression = .gone false

/-- A pill comes to the I/O worker, or he has left. -/
@[grind] def Sent (o : Outline) : Prop :=
  o.posts.io.hasLeft = true ∨ 0 < o.pills.io ∨ o.posts.io = .relaying ∨
    (o.posts.compression = .serving ∧ 0 < o.pills.compression) ∨
    o.posts.compression = .relaying ∨ o.posts.compression = .leaving true

/-- A pill comes to the compression worker, or he has left. -/
@[grind] def Called (o : Outline) : Prop :=
  o.posts.compression.hasLeft = true ∨ o.posts.compression = .relaying ∨ 0 < o.pills.compression

/-- Whoever is waited for has left or is going to. -/
structure Guided (o : Outline) : Prop where
  heard : o.Heard
  closed : o.Closed
  single : o.posts.compression.hasLeft = false → o.OnePill
  fresh : o.posts.io = .relaying → o.draining = false
  passed : o.Passed → o.draining = true ∨ o.posts.io.hasLeft = true
  sent : ¬ o.Unsent → o.Sent
  answered : o.posts.io = .leaving false ∨ o.posts.io = .gone false →
    o.posts.compression.hasLeft = true
  called : o.posts.io = .gone true → o.Called

variable {o o' : Outline}

namespace Guided

theorem heard_step (h : o.Guided) (hs : o.Step o') : o'.Heard := by
  have hh := h.heard
  cases hs with
  | same => exact hh
  | @took s | @crashed s | @relayRefused s | @left s | @leftCrashed s | @joined s
  | @joinedCrashed s =>
    cases s <;> grind
  | _ => grind

theorem closed_step (h : o.Guided) (hs : o.Step o') : o'.Closed := by
  intro x
  -- the stopping closes queues only after both workers are gone
  have hh := h.heard
  have hio := h.closed .io
  have hcompression := h.closed .compression
  cases hs with
  | same => exact h.closed x
  | @took s | @crashed s | @relayRefused s | @left s | @leftCrashed s =>
    cases s <;> cases x <;> grind
  | _ => cases x <;> grind

theorem single_step (h : o.Guided) (hs : o.Step o')
    (hn : o'.posts.compression.hasLeft = false) : o'.OnePill := by
  have h₁ := h.single
  have hio := h.closed .io
  have hcompression := h.closed .compression
  cases hs with
  | same => exact h₁ hn
  | @took s | @crashed s | @relayRefused s | @left s | @leftCrashed s | @joined s
  | @joinedCrashed s =>
    cases s <;> grind [OnePill]
  | _ => grind [OnePill]

theorem fresh_step (h : o.Guided) (hs : o.Step o') :
    o'.posts.io = .relaying → o'.draining = false := by
  have hf := h.fresh
  cases hs with
  | same => exact hf
  | @took s | @crashed s | @relayRefused s | @left s | @leftCrashed s => cases s <;> grind
  | _ => grind

theorem passed_step (h : o.Guided) (hs : o.Step o') :
    o'.Passed → o'.draining = true ∨ o'.posts.io.hasLeft = true := by
  have hp := h.passed
  have hio := h.closed .io
  have hcompression := h.closed .compression
  cases hs with
  | same => exact hp
  | @took s | @crashed s | @relayRefused s | @left s | @leftCrashed s => cases s <;> grind
  | _ => grind

theorem sent_step (h : o.Guided) (hs : o.Step o') : ¬ o'.Unsent → o'.Sent := by
  have hn := h.sent
  have hh := h.heard
  have hio := h.closed .io
  have hcompression := h.closed .compression
  cases hs with
  | same => exact hn
  | relayedOn hr hc =>
    -- the pill reaches a compression worker that has met none before and is not gone
    have hp := h.passed
    have hf := h.fresh
    cases hx : o.posts.compression with
    | leaving c => cases c <;> grind
    | _ => grind
  | @took s | @crashed s | @relayRefused s | @left s | @leftCrashed s | @joined s
  | @joinedCrashed s =>
    cases s <;> grind
  | _ => grind

theorem answered_step (h : o.Guided) (hs : o.Step o') :
    o'.posts.io = .leaving false ∨ o'.posts.io = .gone false →
      o'.posts.compression.hasLeft = true := by
  have ha := h.answered
  have hio := h.closed .io
  have hcompression := h.closed .compression
  cases hs with
  | same => exact ha
  | @took s =>
    -- the pill that makes the I/O worker leave is not the only one that was under way before the
    -- compression worker left
    have h₁ := h.single
    cases s <;> grind [OnePill]
  | @crashed s | @relayRefused s | @left s | @leftCrashed s => cases s <;> grind
  | _ => grind

theorem called_step (h : o.Guided) (hs : o.Step o') : o'.posts.io = .gone true → o'.Called := by
  have hc := h.called
  have hh := h.heard
  have hio := h.closed .io
  have hcompression := h.closed .compression
  cases hs with
  | same => exact hc
  | @took s | @crashed s | @relayRefused s | @left s | @leftCrashed s => cases s <;> grind
  | _ => grind

theorem step (h : o.Guided) (hs : o.Step o') : o'.Guided :=
  ⟨h.heard_step hs, h.closed_step hs, h.single_step hs, h.fresh_step hs, h.passed_step hs,
    h.sent_step hs, h.answered_step hs, h.called_step hs⟩

theorem initial (o : Outline) (hp : o.posts = ⟨.serving, .serving⟩) (hn : o.pills = ⟨0, 0⟩)
    (hc : o.closed = ⟨false, false⟩) (hd : o.draining = false) (hh : o.halt = .running) :
    o.Guided := by
  obtain ⟨posts, pills, closed, draining, halt⟩ := o
  subst hp hn hc hd hh
  refine ⟨trivial, fun s => ?_, fun _ => ?_, fun _ => rfl, ?_, fun hu => ?_, ?_, ?_⟩
  · cases s <;> grind
  · exact ⟨Nat.zero_le 1, fun _ => rfl, fun hd => absurd hd (by decide),
      fun _ => ⟨rfl, fun hp => absurd hp (by decide), rfl⟩⟩
  · grind
  · exact absurd (Or.inl rfl) hu
  · grind
  · grind

end Guided

/-! ### At rest -/

/-- If stopping goes no further although both workers have nothing to do, it is over or it has not
    begun. -/
theorem Guided.at_rest (h : o.Guided)
    (hp : ∀ s, (o.posts.get s = .serving ∧ o.pills.get s = 0) ∨ ∃ c, o.posts.get s = .gone c)
    (hpush : o.halt ≠ .pushing) (hjoin : ∀ s e c, o.halt = .joining s e → o.posts.get s ≠ .gone c)
    (hclose : ∀ s e, o.halt ≠ .closing s e) : o.halt = .running ∨ ∃ e, o.halt = .stopped e := by
  have hio := hp .io
  have hcompression := hp .compression
  have hs := h.sent
  have ha := h.answered
  have hc := h.called
  have hh := h.heard
  cases hx : o.halt with
  | running => exact Or.inl rfl
  | pushing => exact absurd hx hpush
  | joining s e =>
    have hj := fun c => hjoin s e c hx
    cases s with
    | io => grind
    | compression =>
      obtain ⟨c, hgone, -⟩ : ∃ c, o.posts.io = .gone c ∧ e.isSome = c := by
        unfold Heard at hh
        rwa [hx] at hh
      cases c <;> grind
  | closing s e => exact absurd hx (hclose s e)
  | stopped e => exact Or.inr ⟨e, rfl⟩

end Outline

end FilePipeline
