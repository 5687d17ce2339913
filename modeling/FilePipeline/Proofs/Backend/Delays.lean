import FilePipeline.Proofs.Backend.PerPath
import FilePipeline.Proofs.Memory.Overlay

/-! # Backends that are interrupted more often

A backend `Delays` another one if its open files do what those of the other one do, except that a call may
be interrupted instead: it has then changed nothing that is looked at, and leaves the other backend where it
is. Whole transfers do not notice. Their answers, their buffers and what they leave behind are those over
the backend that is not delayed (`Delays.readFull`, `Delays.writeFull`). -/

namespace FilePipeline.Backend

variable {σ η σ' η' : Type}

/-- A reply that is the same as another one, up to how the states are related. -/
structure SameReply {α : Type} (rel : σ' × η' → σ × η → Prop) (r' : IoReply (σ' × η') α)
    (r : IoReply (σ × η) α) : Prop where
  result : r'.result = r.result
  state : rel r'.state r.state

/-- A backend whose calls do what those of another one do, or are interrupted and do nothing. `rel` says
    which open files of the two backends are the same. -/
structure Delays (b' : Backend σ' η') (b : Backend σ η) (rel : σ' × η' → σ × η → Prop) : Prop where
  read : ∀ {s' h' s h} dst, rel (s', h') (s, h) →
    interrupted (b'.read s' h' dst).result = true ∧ rel (b'.read s' h' dst).state (s, h) ∧
        (⟨dst.size, (b'.read s' h' dst).written⟩ : Span).Agrees dst ∨
      SameReply rel (b'.read s' h' dst).toIoReply (b.read s h dst).toIoReply ∧
        (⟨dst.size, (b'.read s' h' dst).written⟩ : Span).Agrees ⟨dst.size, (b.read s h dst).written⟩
  write : ∀ {s' h' s h} src, rel (s', h') (s, h) →
    interrupted (b'.write s' h' src).result = true ∧ rel (b'.write s' h' src).state (s, h) ∨
      SameReply rel (b'.write s' h' src) (b.write s h src)

namespace Delays

variable {b' : Backend σ' η'} {b : Backend σ η} {rel : σ' × η' → σ × η → Prop} {s' : σ'} {h' : η'}
  {s : σ} {h : η} {buf : Span} {filled : Nat}

theorem read_same (hb : b'.Delays b rel) (hx : rel (s', h') (s, h))
    (hi : interrupted (b'.read s' h' (buf.drop filled)).result = false) :
    SameReply rel (b'.read s' h' (buf.drop filled)).toIoReply
        (b.read s h (buf.drop filled)).toIoReply ∧
      buf.overlay filled ⟨buf.size - filled, (b'.read s' h' (buf.drop filled)).written⟩ =
        buf.overlay filled ⟨buf.size - filled, (b.read s h (buf.drop filled)).written⟩ := by
  rcases hb.read (buf.drop filled) hx with ⟨hi', -⟩ | ⟨hsame, hwritten⟩
  · rw [hi] at hi'
    cases hi'
  · exact ⟨hsame, Span.overlay_congr hwritten buf filled⟩

theorem write_same (hb : b'.Delays b rel) (hx : rel (s', h') (s, h)) {src : List UInt8}
    (hi : interrupted (b'.write s' h' src).result = false) :
    SameReply rel (b'.write s' h' src) (b.write s h src) := by
  rcases hb.write src hx with ⟨hi', -⟩ | hsame
  · rw [hi] at hi'
    cases hi'
  · exact hsame

/-- By induction on the calls of the delayed backend. The other loop goes along with each of them but the
    interruptions that are its own. -/
theorem readFrom (hb : b'.Delays b rel) (buf : Span) (filled : Nat) : ∀ {s h}, rel (s', h') (s, h) →
    SameReply rel (b'.readFrom s' h' buf filled).toIoReply (b.readFrom s h buf filled).toIoReply ∧
      (b'.readFrom s' h' buf filled).written = (b.readFrom s h buf filled).written := by
  induction s', h', buf, filled using readFrom_induction b' with
  | full s' h' buf filled hge =>
    intro s h hx
    rw [readFrom_of_full hge]
    exact ⟨⟨rfl, hx⟩, rfl⟩
  | halts s' h' buf filled r hlt hr =>
    intro s h hx
    obtain ⟨hsame, hnext⟩ := hb.read_same hx hr.interrupted_eq_false
    rw [hsame.result] at hr
    rw [readFrom_of_halts hlt hr]
    exact ⟨⟨rfl, hsame.state⟩, congrArg Span.byte hnext⟩
  | continues s' h' buf filled m hlt hgo ih =>
    intro s h hx
    rcases hb.read (buf.drop filled) hx with ⟨hi, hstay, hwritten⟩ | ⟨hsame, hwritten⟩
    · -- the interruption is its own, and the buffer is as it was
      have hnext : buf.overlay filled
          ⟨buf.size - filled, (b'.read s' h' (buf.drop filled)).written⟩ = buf :=
        Span.overlay_drop_self hwritten
      rw [hnext, hgo.eq_of_interrupted hi] at ih ⊢
      exact ih hstay
    · have hnext : buf.overlay filled
          ⟨buf.size - filled, (b'.read s' h' (buf.drop filled)).written⟩ = buf.overlay filled
            ⟨buf.size - filled, (b.read s h (buf.drop filled)).written⟩ :=
        Span.overlay_congr hwritten buf filled
      rw [hsame.result] at hgo
      rw [readFrom_of_continues (s := s) hlt hgo, ← hnext]
      exact ih hsame.state

theorem writeFrom (hb : b'.Delays b rel) (data : List UInt8) (written : Nat) :
    ∀ {s h}, rel (s', h') (s, h) →
      SameReply rel (b'.writeFrom s' h' data written) (b.writeFrom s h data written) := by
  induction s', h', written using writeFrom_induction b' data with
  | full s' h' written hge =>
    intro s h hx
    rw [writeFrom_of_full hge]
    exact ⟨rfl, hx⟩
  | halts s' h' written r hlt hr =>
    intro s h hx
    have hsame := hb.write_same hx hr.interrupted_eq_false
    rw [hsame.result] at hr
    rw [writeFrom_of_halts hlt hr]
    exact ⟨rfl, hsame.state⟩
  | continues s' h' written m hlt hgo ih =>
    intro s h hx
    rcases hb.write (data.drop written) hx with ⟨hi, hstay⟩ | hsame
    · rw [hgo.eq_of_interrupted hi] at ih ⊢
      exact ih hstay
    · rw [hsame.result] at hgo
      rw [writeFrom_of_continues (s := s) hlt hgo]
      exact ih hsame.state

theorem readFull (hb : b'.Delays b rel) (hx : rel (s', h') (s, h)) (buf : Span) :
    SameReply rel (b'.readFull s' h' buf).toIoReply (b.readFull s h buf).toIoReply ∧
      (b'.readFull s' h' buf).written = (b.readFull s h buf).written :=
  hb.readFrom buf 0 hx

theorem writeFull (hb : b'.Delays b rel) (hx : rel (s', h') (s, h)) (data : List UInt8) :
    SameReply rel (b'.writeFull s' h' data) (b.writeFull s h data) :=
  hb.writeFrom data 0 hx

end Delays

end FilePipeline.Backend
