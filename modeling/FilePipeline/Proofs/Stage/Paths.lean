import FilePipeline.Proofs.Backend.Faulty
import FilePipeline.Proofs.Stage.Brackets
import FilePipeline.Proofs.Stage.Errors

/-! # Paths that are not taken

A path is turned down for one of three reasons, in this order: it is too long for its field, which is found
out when the work is submitted (`ofString?_eq_error_iff`), or the platform does not take it, since it is
empty or has a zero byte (`Untaken`), which is found out in the I/O stage. There the work fails before
anything is called (`processIo_of_untaken`), and for want of a path it fails in no other way
(`untaken_of_processIo`). -/

namespace FilePipeline

/-! ### Reasons -/

/-- Why the platform does not take a path. -/
inductive Untaken (path : String) : PathError → Prop
  | empty (h : path = "") : Untaken path .empty
  | interiorZero {k : Nat} (hk : path.toUTF8.data.toList[k]? = some 0)
      (hfirst : ∀ j < k, path.toUTF8.data.toList[j]? ≠ some 0) : Untaken path (.interiorZero k)

theorem zeroOffset?_eq_some_iff {bytes : List UInt8} {k : Nat} :
    zeroOffset? bytes = some k ↔ bytes[k]? = some 0 ∧ ∀ j < k, bytes[j]? ≠ some 0 := by
  unfold zeroOffset?
  rw [List.findIdx?_eq_some_iff_getElem]
  constructor
  · rintro ⟨hlt, hk, hfirst⟩
    refine ⟨List.getElem?_eq_some_iff.mpr ⟨hlt, by simpa using hk⟩, fun j hj hz => ?_⟩
    obtain ⟨_, hz⟩ := List.getElem?_eq_some_iff.mp hz
    exact hfirst j hj (beq_iff_eq.mpr hz)
  · rintro ⟨hk, hfirst⟩
    obtain ⟨hlt, hk⟩ := List.getElem?_eq_some_iff.mp hk
    refine ⟨hlt, by rw [hk]; rfl, fun j hj hz => ?_⟩
    exact hfirst j hj (List.getElem?_eq_some_iff.mpr ⟨by omega, by simpa using hz⟩)

theorem nativePath_eq_error_iff {path : String} {e : PathError} :
    nativePath path = .error e ↔ Untaken path e := by
  unfold nativePath
  constructor
  · intro h
    split at h
    · next hempty =>
      cases h
      exact .empty (String.isEmpty_iff.mp hempty)
    · split at h
      · next k hk =>
        cases h
        obtain ⟨hk, hfirst⟩ := zeroOffset?_eq_some_iff.mp hk
        exact .interiorZero hk hfirst
      · cases h
  · intro h
    cases h with
    | empty h =>
      subst h
      rfl
    | interiorZero hk hfirst =>
      have hne : ¬ path.isEmpty = true := by
        intro hempty
        rw [String.isEmpty_iff.mp hempty] at hk
        cases hk
      rw [if_neg hne, zeroOffset?_eq_some_iff.mpr ⟨hk, hfirst⟩]

theorem nativePath_eq_ok_iff {path native : String} :
    nativePath path = .ok native ↔ native = path ∧ ∀ e, ¬ Untaken path e := by
  constructor
  · intro h
    refine ⟨Backend.Scripted.nativePath_eq h, fun e he => ?_⟩
    rw [nativePath_eq_error_iff.mpr he] at h
    cases h
  · rintro ⟨rfl, hnone⟩
    cases h : nativePath native with
    | error e => exact absurd (nativePath_eq_error_iff.mp h) (hnone e)
    | ok path => rw [Backend.Scripted.nativePath_eq h]

/-- A path is admitted exactly if it fits into its field. -/
theorem ofString?_eq_error_iff {path : String} {e : PathError} :
    PathField.ofString? path = .error e ↔
      maxPathLength < path.utf8ByteSize ∧ e = .tooLong path.utf8ByteSize maxPathLength := by
  have hsize : path.toUTF8.size = path.utf8ByteSize := rfl
  unfold PathField.ofString?
  dsimp only
  rw [hsize]
  split
  · next hlt =>
    constructor
    · intro h
      cases h
      exact ⟨hlt, rfl⟩
    · rintro ⟨-, rfl⟩
      rfl
  · next hle =>
    constructor
    · intro h
      cases h
    · rintro ⟨hlt, -⟩
      exact absurd hlt hle

/-! ### The I/O stage -/

namespace Stage

variable {σ η κ α : Type} {p : Setup σ η κ} {hs : Heaps} {w : Work} {s : σ} {e : PathError}

theorem processIo_of_untaken (ht : p.backend.translate s w.path.text = Attempt.fail e) :
    processIo p hs s w = ⟨Attempt.fail (.path e), w, hs, s⟩ := by
  have hfile : ∀ {α : Type} (body : σ → η → Processed (σ × η) α),
      withFile p hs s w (opening w.op) body = ⟨Attempt.fail (.path e), w, hs, s⟩ := by
    intro α body
    unfold withFile
    rw [ht]
    rfl
  cases hop : w.op with
  | read => rw [processIo_of_read _ _ _ hop, hfile]
  | write => rw [processIo_of_write _ _ _ hop, hfile]; rfl

theorem untaken_of_withFile {mode : OpenMode} {body : σ → η → Processed (σ × η) α}
    (hb : ∀ s h, (body s h).result ≠ Attempt.fail (.path e))
    (h : (withFile p hs s w mode body).result = Attempt.fail (.path e)) :
    p.backend.translate s w.path.text = Attempt.fail e := by
  unfold withFile at h
  split at h
  · next f ht =>
    rcases f with e' | c <;> cases h
    exact ht
  · dsimp only at h
    split at h
    · next f _ => rcases f with e' | c <;> cases h
    · exact absurd (result_of_closing h) (hb _ _)

/-- Work that fails because of its path has one that is not taken. -/
theorem untaken_of_processIo (h : (processIo p hs s w).result = Attempt.fail (.path e)) :
    p.backend.translate s w.path.text = Attempt.fail e := by
  have hio : ∀ {α : Type} {r : Attempt IoError α},
      Attempt.mapError WorkError.io r ≠ Attempt.fail (.path e) := by
    intro α r hr
    rcases r with (e' | c) | a <;> cases hr
  cases hop : w.op with
  | read =>
    rw [processIo_of_read _ _ _ hop] at h
    refine untaken_of_withFile (fun s h hr => ?_) h
    unfold readContents at hr
    dsimp only at hr
    split at hr
    · exact hio hr
    · split at hr
      · cases hr
      · split at hr
        · exact hio hr
        · split at hr <;> cases hr
  | write =>
    rw [processIo_of_write _ _ _ hop] at h
    have hfile : (withFile p hs s w (opening w.op) (writeContents p hs w)).result =
        Attempt.fail (.path e) := by
      unfold sized at h
      split at h
      · cases h
      · next hr =>
        rw [hr]
        exact congrArg _ (Except.error.inj h)
    exact untaken_of_withFile (fun s h hr => hio hr) hfile

end Stage

end FilePipeline
