import FilePipeline.Backend.FileTree
import FilePipeline.Backend.Scripted
import FilePipeline.Proofs.Backend.Loops
import FilePipeline.Proofs.Memory.Prefix

/-! # Read loops in lockstep

Two read loops into spans with the same bytes do the same as long as their calls do the same. What that
means for the states of the backend is left to a relation `R`, which each call has to preserve
(`readFrom_inStep`). The simplest case is that of one backend that starts twice in the same state: if it
keeps to the spans it is given, it cannot tell what is behind their ends (`KeepsToSpans.readFull`). -/

namespace FilePipeline.Backend

variable {σ η : Type} {b : Backend σ η} {R : σ × η → σ × η → Prop}

/-- Two reads, into the spans `dst` and `dst'`, that do the same. -/
structure InStep (R : σ × η → σ × η → Prop) (dst dst' : Span) (r r' : ReadReply (σ × η)) : Prop where
  result : r.result = r'.result
  state : R r.state r'.state
  written : (⟨dst.size, r.written⟩ : Span).Agrees ⟨dst'.size, r'.written⟩

/-- Two read loops that begin in states related by `R`, if each call keeps them so. -/
theorem readFrom_inStep (hread : ∀ {s s' : σ} {h h' : η} {dst dst' : Span}, dst.Agrees dst' →
      R (s, h) (s', h') → InStep R dst dst' (b.read s h dst) (b.read s' h' dst'))
    (s : σ) (h : η) (buf : Span) (filled : Nat) : ∀ {s' h' buf'}, buf.Agrees buf' → R (s, h) (s', h') →
      InStep R buf buf' (b.readFrom s h buf filled) (b.readFrom s' h' buf' filled) := by
  induction s, h, buf, filled using readFrom_induction b with
  | full s h buf filled hge =>
    intro s' h' buf' hbuf hx
    rw [readFrom_of_full (hbuf.size ▸ hge)]
    exact ⟨rfl, hx, hbuf⟩
  | halts s h buf filled r hlt hr =>
    intro s' h' buf' hbuf hx
    have hcall := hread (hbuf.drop filled) hx
    rw [hcall.result] at hr
    rw [readFrom_of_halts (hbuf.size ▸ hlt) hr]
    exact ⟨rfl, hcall.state, hbuf.overlay filled hcall.written⟩
  | continues s h buf filled m hlt hgo ih =>
    intro s' h' buf' hbuf hx
    have hcall := hread (hbuf.drop filled) hx
    rw [hcall.result] at hgo
    rw [readFrom_of_continues (s := s') (hbuf.size ▸ hlt) hgo]
    have hrest := ih (hbuf.overlay filled hcall.written) hcall.state
    exact ⟨hrest.result, hrest.state, hrest.written⟩

/-- A backend for which there is nothing behind the end of a span that it is given: what it answers and
does, and what it puts into the span, depends on the bytes of the span at most. -/
def KeepsToSpans (b : Backend σ η) : Prop :=
  ∀ (s : σ) (h : η) {dst dst' : Span}, dst.Agrees dst' →
    InStep Eq dst dst' (b.read s h dst) (b.read s h dst')

theorem KeepsToSpans.readFull (hb : b.KeepsToSpans) (s : σ) (h : η) {buf buf' : Span}
    (hbuf : buf.Agrees buf') : InStep Eq buf buf' (b.readFull s h buf) (b.readFull s h buf') := by
  refine readFrom_inStep (R := Eq) (fun {s s' h h' dst dst'} hdst hx => ?_) s h buf 0 hbuf rfl
  cases hx
  exact hb s h hdst

theorem Scripted.keepsToSpans : Scripted.backend.KeepsToSpans := by
  intro s h dst dst' hdst
  show InStep Eq dst dst' (Scripted.read s h dst) (Scripted.read s h dst')
  have hsome : ∀ (t : Scripted.Store) (n : Nat),
      InStep Eq dst dst' (Scripted.readSome t h dst n) (Scripted.readSome t h dst' n) := fun t n => by
    unfold Scripted.readSome
    rw [← hdst.size]
    exact ⟨rfl, rfl, hdst.overlay 0 (.refl _)⟩
  unfold Scripted.read
  rw [← hdst.size]
  split
  · exact hsome _ _
  · exact hsome _ _
  all_goals exact ⟨rfl, rfl, hdst⟩

theorem FileTree.keepsToSpans : FileTree.backend.KeepsToSpans := by
  intro t h dst dst' hdst
  show InStep Eq dst dst' (FileTree.read t h dst) (FileTree.read t h dst')
  unfold FileTree.read
  rw [← hdst.size]
  split
  · exact ⟨rfl, rfl, hdst.overlay 0 (.refl _)⟩
  · exact ⟨rfl, rfl, hdst⟩

end FilePipeline.Backend
