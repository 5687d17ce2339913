import FilePipeline.Proofs.Backend.Chunks
import FilePipeline.Proofs.Backend.Lockstep

/-! # Backends that keep their files apart

`Parts` is a way of looking at a backend path by path: what a state has for each path, and when two open
files are in the same situation. A backend is `PerPath` if what a call on the file of a path answers, and
what it does to the part of that path, depends on that part alone, and the parts of all other paths are
left as they are. Its files may fail, crash and answer wrongly in any way, as long as each does so by
itself.

Whole transfers over such a backend keep to their path as well (`readFull_alike`, `writeFull_alike`): two
of them that begin in the same situation go on in lockstep. -/

namespace FilePipeline

/-- What is looked at of a backend for each path. -/
structure Parts (σ η τ : Type) where
  /-- What a state has for a path: its file, its faults, whatever else there is. -/
  part : σ → String → τ
  /-- That the file of a path is open in both states and nothing tells the two apart. -/
  alike : String → σ × η → σ × η → Prop

namespace Parts

variable {σ η τ α : Type} (v : Parts σ η τ)

/-- At most the part of the path `f` has changed. -/
def Elsewhere (f : String) (s s' : σ) : Prop := ∀ g, g ≠ f → v.part s' g = v.part s g

/-- Two openings of the file of the path `f`, the first one in the state `s`, that do the same. -/
structure Opens (f : String) (s : σ) (r r' : IoReply σ η) : Prop where
  fails : ∀ e, r.result = .error e → r'.result = .error e ∧ v.part r.state f = v.part r'.state f
  opens : ∀ h, r.result = .ok h → ∃ h', r'.result = .ok h' ∧ v.alike f (r.state, h) (r'.state, h')
  others : v.Elsewhere f s r.state

/-- Two calls on the open file of the path `f`, the first one in the state `s`, that do the same. -/
structure Replies (f : String) (s : σ) (r r' : IoReply (σ × η) α) : Prop where
  result : r.result = r'.result
  alike : v.alike f r.state r'.state
  others : v.Elsewhere f s r.state.1

/-- Two reads into the spans `dst` and `dst'` that do the same. -/
structure Reads (f : String) (s : σ) (dst dst' : Span) (r r' : ReadReply (σ × η)) : Prop
    extends v.Replies f s r.toIoReply r'.toIoReply where
  written : (⟨dst.size, r.written⟩ : Span).Agrees ⟨dst'.size, r'.written⟩

/-- The file of the path `f`, opened in both states, is alike in them, and since the state `s` at most
    its part has changed. -/
def During (f : String) (s : σ) (x x' : σ × η) : Prop := v.alike f x x' ∧ v.Elsewhere f s x.1

/-- The part of the path `f` is the same in both states, and since the state `s` at most it has
    changed. -/
def After (f : String) (s s₁ s₁' : σ) : Prop := v.part s₁ f = v.part s₁' f ∧ v.Elsewhere f s s₁

variable {v} {f : String} {s : σ}

theorem Elsewhere.trans {s' s'' : σ} (h : v.Elsewhere f s s') (h' : v.Elsewhere f s' s'') :
    v.Elsewhere f s s'' := fun g hg => (h' g hg).trans (h g hg)

end Parts

namespace Backend

variable {σ η τ : Type}

/-- A backend whose state is made up of a part for each path. -/
structure PerPath (b : Backend σ η) (v : Parts σ η τ) : Prop where
  part : ∀ {f x x'}, v.alike f x x' → v.part x.1 f = v.part x'.1 f
  translate : ∀ {s s' f}, v.part s f = v.part s' f → b.translate s f = b.translate s' f
  openFile : ∀ {s s' f native} (mode : OpenMode), b.translate s f = .ok native →
    v.part s f = v.part s' f →
    v.Opens f s (b.openFile s native mode) (b.openFile s' native mode)
  querySize : ∀ {s s' h h' f}, v.alike f (s, h) (s', h') →
    v.Replies f s (b.querySize s h) (b.querySize s' h')
  read : ∀ {s s' h h' f} {dst dst' : Span}, dst.Agrees dst' → v.alike f (s, h) (s', h') →
    v.Reads f s dst dst' (b.read s h dst) (b.read s' h' dst')
  write : ∀ {s s' h h' f} (src : List UInt8), v.alike f (s, h) (s', h') →
    v.Replies f s (b.write s h src) (b.write s' h' src)
  close : ∀ {s s' h h' f}, v.alike f (s, h) (s', h') →
    (b.close s h).result = (b.close s' h').result ∧
      v.part (b.close s h).state f = v.part (b.close s' h').state f ∧
      v.Elsewhere f s (b.close s h).state

variable {b : Backend σ η} {v : Parts σ η τ} {s s' : σ} {h h' : η} {f : String}

/-! ### Whole transfers -/

theorem readFrom_alike (hb : b.PerPath v) (buf : Span) (filled : Nat) :
    ∀ {s' h' buf'}, buf.Agrees buf' → v.alike f (s, h) (s', h') →
      v.Reads f s buf buf' (b.readFrom s h buf filled) (b.readFrom s' h' buf' filled) := by
  intro s' h' buf' hbuf hx
  have hloop := readFrom_inStep (R := v.During f s) (fun hdst hx => by
    have hcall := hb.read hdst hx.1
    exact ⟨hcall.result, ⟨hcall.alike, hx.2.trans hcall.others⟩, hcall.written⟩)
    s h buf filled hbuf ⟨hx, fun _ _ => rfl⟩
  exact ⟨⟨hloop.result, hloop.state.1, hloop.state.2⟩, hloop.written⟩

theorem writeFrom_alike (hb : b.PerPath v) (data : List UInt8) (written : Nat) :
    ∀ {s' h'}, v.alike f (s, h) (s', h') →
      v.Replies f s (b.writeFrom s h data written) (b.writeFrom s' h' data written) := by
  induction s, h, written using writeFrom_induction b data with
  | full s h written hge =>
    intro s' h' hx
    rw [writeFrom_of_full hge]
    exact ⟨rfl, hx, fun _ _ => rfl⟩
  | halts s h written r hlt hr =>
    intro s' h' hx
    have hcall := hb.write (data.drop written) hx
    rw [hcall.result] at hr
    rw [writeFrom_of_halts hlt hr]
    exact ⟨rfl, hcall.alike, hcall.others⟩
  | continues s h written m hlt hgo ih =>
    intro s' h' hx
    have hcall := hb.write (data.drop written) hx
    rw [hcall.result] at hgo
    rw [writeFrom_of_continues (s := s') hlt hgo]
    have hrest := ih hcall.alike
    exact ⟨hrest.result, hrest.alike, hcall.others.trans hrest.others⟩

theorem readFull_alike (hb : b.PerPath v) {buf buf' : Span} (hbuf : buf.Agrees buf')
    (hx : v.alike f (s, h) (s', h')) :
    v.Reads f s buf buf' (b.readFull s h buf) (b.readFull s' h' buf') :=
  readFrom_alike hb buf 0 hbuf hx

theorem writeFull_alike (hb : b.PerPath v) (data : List UInt8)
    (hx : v.alike f (s, h) (s', h')) :
    v.Replies f s (b.writeFull s h data) (b.writeFull s' h' data) :=
  writeFrom_alike hb data 0 hx

/-! ### Scripted files -/

namespace Scripted

/-- The file and the faults of a path; open files are alike if they stand at the same position. -/
def parts : Parts Store Handle (Option (List UInt8) × Faults) where
  part s f := (s.files f, s.faults f)
  alike f x x' := x.2 = x'.2 ∧ x.2.path = f ∧
    (x.1.files f, x.1.faults f) = (x'.1.files f, x'.1.faults f)

variable {s s' t t' : Store} {f : String} {x : Handle}

theorem part_put (s : Store) (f : String) (bytes : List UInt8) (g : String) :
    parts.part (s.put f bytes) g = if g = f then (some bytes, s.faults g) else parts.part s g := by
  show ((if g = f then some bytes else s.files g), s.faults g) = _
  split <;> rfl

theorem part_setFaults (s : Store) (f : String) (faults : Faults) (g : String) :
    parts.part (s.setFaults f faults) g =
      if g = f then (s.files g, faults) else parts.part s g := by
  show (s.files g, (if g = f then faults else s.faults g)) = _
  split <;> rfl

theorem opens_of_part (mode : OpenMode) (h : parts.part s f = parts.part s' f) :
    parts.Opens f s (openFile s f mode) (openFile s' f mode) := by
  obtain ⟨hfiles, hfaults⟩ := Prod.mk.inj h
  -- the file is made empty, or it is as it was
  have hput : parts.part (s.put f []) f = parts.part (s'.put f []) f := by
    rw [part_put, part_put, if_pos rfl, if_pos rfl, hfaults]
  have hothers : parts.Elsewhere f s (s.put f []) := fun g hg => by rw [part_put, if_neg hg]
  have hfails : ∀ {e : Fault IoError} {t t' : Store}, parts.part t f = parts.part t' f →
      parts.Elsewhere f s t → parts.Opens f s ⟨.error e, t⟩ ⟨.error e, t'⟩ := by
    intro e t t' ht ho
    refine ⟨fun e' he => ⟨he, ht⟩, fun x hx => ?_, ho⟩
    cases hx
  have hopens : ∀ {t t' : Store}, parts.part t f = parts.part t' f → parts.Elsewhere f s t →
      parts.Opens f s ⟨.ok ⟨f, 0⟩, t⟩ ⟨.ok ⟨f, 0⟩, t'⟩ := by
    intro t t' ht ho
    refine ⟨fun e he => (by cases he), fun x hx => ⟨x, hx, rfl, ?_, ht⟩, ho⟩
    cases hx
    rfl
  have hkept : parts.Elsewhere f s s := fun _ _ => rfl
  unfold openFile opened
  rw [← hfaults]
  rcases (s.faults f).openFile with _ | (e | _)
  · cases mode with
    | sharedRead =>
      dsimp only
      rw [← hfiles]
      cases (s.files f).isSome
      · exact hfails h hkept
      · exact hopens h hkept
    | createTruncate => exact hopens hput hothers
  · exact hfails h hkept
  · cases mode with
    | sharedRead =>
      dsimp only
      rw [← hfiles]
      cases (s.files f).isSome <;> exact hfails h hkept
    | createTruncate => exact hfails hput hothers

theorem size_of_part (h : parts.part s x.path = parts.part s' x.path) :
    parts.Replies x.path s (querySize s x) (querySize s' x) := by
  obtain ⟨hfiles, hfaults⟩ := Prod.mk.inj h
  unfold querySize Store.contents
  rw [← hfaults, ← hfiles]
  rcases ((s.faults x.path).size).getD (.ok ((s.files x.path).getD []).length) with e | n <;>
    exact ⟨rfl, ⟨rfl, rfl, h⟩, fun _ _ => rfl⟩

theorem readSome_of_part {dst dst' : Span} (hdst : dst.Agrees dst') (n : Nat)
    (h : parts.part t x.path = parts.part t' x.path) (ho : parts.Elsewhere x.path s t) :
    parts.Reads x.path s dst dst' (readSome t x dst n) (readSome t' x dst' n) := by
  obtain ⟨hfiles, -⟩ := Prod.mk.inj h
  unfold readSome Store.contents
  rw [← hfiles, ← hdst.size]
  exact ⟨⟨rfl, ⟨rfl, rfl, h⟩, ho⟩, hdst.overlay 0 (.refl _)⟩

theorem read_of_part {dst dst' : Span} (hdst : dst.Agrees dst')
    (h : parts.part s x.path = parts.part s' x.path) :
    parts.Reads x.path s dst dst' (read s x dst) (read s' x dst') := by
  obtain ⟨hfiles, hfaults⟩ := Prod.mk.inj h
  unfold read Store.nextRead
  rw [← hfaults, ← hdst.size]
  dsimp only
  rcases (s.faults x.path).reads with _ | ⟨m, rest⟩
  · exact readSome_of_part hdst _ h fun _ _ => rfl
  · have hrest : parts.part (s.setFaults x.path { s.faults x.path with reads := rest }) x.path =
        parts.part (s'.setFaults x.path { s.faults x.path with reads := rest }) x.path := by
      rw [part_setFaults, part_setFaults, if_pos rfl, if_pos rfl, hfiles]
    have hothers : parts.Elsewhere x.path s
        (s.setFaults x.path { s.faults x.path with reads := rest }) := fun g hg => by
      rw [part_setFaults, if_neg hg]
    cases m with
    | atMost n => exact readSome_of_part hdst n hrest hothers
    | lie | fail | crash => exact ⟨⟨rfl, ⟨rfl, rfl, hrest⟩, hothers⟩, hdst⟩

theorem writeSome_of_part (src : List UInt8) (n : Nat)
    (h : parts.part t x.path = parts.part t' x.path) (ho : parts.Elsewhere x.path s t) :
    parts.Replies x.path s (writeSome t x src n) (writeSome t' x src n) := by
  obtain ⟨hfiles, hfaults⟩ := Prod.mk.inj h
  have hput : ∀ bytes, parts.part (t.put x.path bytes) x.path =
      parts.part (t'.put x.path bytes) x.path := fun bytes => by
    rw [part_put, part_put, if_pos rfl, if_pos rfl, hfaults]
  unfold writeSome Store.contents
  rw [← hfiles]
  refine ⟨rfl, ⟨rfl, rfl, hput _⟩, fun g hg => ?_⟩
  exact Eq.trans ((part_put t _ _ g).trans (if_neg hg)) (ho g hg)

theorem write_of_part (src : List UInt8) (h : parts.part s x.path = parts.part s' x.path) :
    parts.Replies x.path s (write s x src) (write s' x src) := by
  obtain ⟨hfiles, hfaults⟩ := Prod.mk.inj h
  unfold write Store.nextWrite
  rw [← hfaults]
  dsimp only
  rcases (s.faults x.path).writes with _ | ⟨m, rest⟩
  · exact writeSome_of_part src _ h fun _ _ => rfl
  · have hrest : parts.part (s.setFaults x.path { s.faults x.path with writes := rest }) x.path =
        parts.part (s'.setFaults x.path { s.faults x.path with writes := rest }) x.path := by
      rw [part_setFaults, part_setFaults, if_pos rfl, if_pos rfl, hfiles]
    have hothers : parts.Elsewhere x.path s
        (s.setFaults x.path { s.faults x.path with writes := rest }) := fun g hg => by
      rw [part_setFaults, if_neg hg]
    cases m with
    | atMost n => exact writeSome_of_part src n hrest hothers
    | lie | fail | crash => exact ⟨rfl, ⟨rfl, rfl, hrest⟩, hothers⟩

theorem close_of_part (h : parts.part s x.path = parts.part s' x.path) :
    (close s x).result = (close s' x).result ∧
      parts.part (close s x).state x.path = parts.part (close s' x).state x.path ∧
      parts.Elsewhere x.path s (close s x).state := by
  obtain ⟨-, hfaults⟩ := Prod.mk.inj h
  unfold close
  rw [← hfaults]
  rcases (s.faults x.path).close with _ | e <;> exact ⟨rfl, h, fun _ _ => rfl⟩

/-- Scripted files are kept apart, whatever their faults are. -/
theorem perPath : backend.PerPath parts where
  part h := h.2.2
  translate _ := rfl
  openFile mode ht h := by
    obtain rfl := translate_eq ht
    exact opens_of_part mode h
  querySize := by
    rintro s s' h h' f ⟨rfl, rfl, hp⟩
    exact size_of_part hp
  read := by
    rintro s s' h h' f dst dst' hdst ⟨rfl, rfl, hp⟩
    exact read_of_part hdst hp
  write := by
    rintro s s' h h' f src ⟨rfl, rfl, hp⟩
    exact write_of_part src hp
  close := by
    rintro s s' h h' f ⟨rfl, rfl, hp⟩
    exact close_of_part hp

end Scripted

end Backend

end FilePipeline
