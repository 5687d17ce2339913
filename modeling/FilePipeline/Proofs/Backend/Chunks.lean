import FilePipeline.Proofs.Backend.Faulty
import Mathlib.Algebra.GroupWithZero.Nat

/-! # What a write loop has moved

`chunks` are the counts with which the calls of a write loop have answered, first to last. Over an honest
backend the file holds as many bytes as they add up to, the first ones of those to be written
(`contents_writeFull`). These are all of them if the loop ends well, and fewer if it fails: each way in
which it fails is at a call that is made only while bytes are left.

An opening for writing that fails may have emptied the file before. `KeepsUnopened` says that it has
not. -/

namespace FilePipeline.Backend

variable {σ η ν : Type} {b : Backend σ η} {v : View σ η ν} {s : σ} {h : η} {f : ν}
  {data : List UInt8} {written : Nat}

/-- The counts with which the calls have answered that write what is left of `data` after its first
    `written` bytes. -/
def chunksFrom (b : Backend σ η) (s : σ) (h : η) (data : List UInt8) (written : Nat) : List Nat :=
  if _hlt : written < data.length then
    let r := b.write s h (data.drop written)
    match _hr : r.result with
    | .ok 0 => [0]
    | .ok (n + 1) =>
      match Size.add written (n + 1) with
      | .ok _ => (n + 1) :: chunksFrom b r.state.1 r.state.2 data (written + (n + 1))
      | .error _ => [n + 1]
    | .error (.error e) =>
      if _he : e.isInterrupted = true then chunksFrom b r.state.1 r.state.2 data written else []
    | .error (.crash _) => []
  else []
termination_by (data.length - written, b.patience (s, h))
decreasing_by
  · exact Prod.Lex.left _ _ (by omega)
  · have hp := b.write_patience s h (data.drop written) (by
      have : (b.write s h (data.drop written)).result = .error (.error e) := _hr
      rw [this]; exact _he)
    exact Prod.Lex.right _ hp

/-- The counts with which the calls have answered that write all of `data`. -/
def chunks (b : Backend σ η) (s : σ) (h : η) (data : List UInt8) : List Nat :=
  b.chunksFrom s h data 0

/-- What a write loop comes to that has answered with `r`, if the calls have taken `n` bytes in all. -/
structure Moved (v : View σ η ν) (f : ν) (data : List UInt8) (n : Nat) (r : IoReply (σ × η) Nat) :
    Prop where
  contents : v.contents r.state.1 f = some (data.take n)
  le : n ≤ data.length
  /-- All bytes were taken if it went well, -/
  full : ∀ m, r.result = .ok m → n = data.length
  /-- and some are left if it failed. -/
  short : ∀ e, r.result = .error (.error e) → n < data.length

theorem chunksFrom_of_full (hge : data.length ≤ written) : b.chunksFrom s h data written = [] := by
  rw [chunksFrom, dif_neg (Nat.not_lt.mpr hge)]

theorem chunksFrom_of_halts {r : Attempt IoError Nat} (hlt : written < data.length)
    (hr : Halts (Attempt.fail .acceptedNothing) written (b.write s h (data.drop written)).result r) :
    b.chunksFrom s h data written = (b.write s h (data.drop written)).result.toOption.toList := by
  fun_cases chunksFrom b s h data written with
  | case1 _ x hx => rw [show (b.write s h (data.drop written)).result = _ from hx]; rfl
  | case2 _ x n hx _ hadd => exact absurd hr (continues_of_add hx hadd).not_halts
  | case3 _ x n hx c hadd => rw [show (b.write s h (data.drop written)).result = _ from hx]; rfl
  | case4 _ x e hx hi => exact absurd hr (continues_of_interrupted hx hi).not_halts
  | case5 _ x e hx hi => rw [show (b.write s h (data.drop written)).result = _ from hx]; rfl
  | case6 _ x c hx => rw [show (b.write s h (data.drop written)).result = _ from hx]; rfl
  | case7 hge => exact absurd hlt hge

theorem sum_chunksFrom_of_continues {m : Nat} (hlt : written < data.length)
    (hgo : Continues written (b.write s h (data.drop written)).result m) :
    written + (b.chunksFrom s h data written).sum =
      m + (b.chunksFrom (b.write s h (data.drop written)).state.1
        (b.write s h (data.drop written)).state.2 data m).sum := by
  have hno : ∀ r, ¬ Halts (Attempt.fail .acceptedNothing) written
      (b.write s h (data.drop written)).result r := fun _ => hgo.not_halts
  fun_cases chunksFrom b s h data written with
  | case1 _ x hx => exact (hno _ (.stopped hx rfl)).elim
  | case2 _ x n hx _ hadd =>
    rw [List.sum_cons, ← Nat.add_assoc, hgo.unique (continues_of_add hx hadd)]
  | case3 _ x n hx c hadd => exact (hno _ (halts_of_add hx hadd)).elim
  | case4 _ x e hx hi => rw [hgo.unique (continues_of_interrupted hx hi)]
  | case5 _ x e hx hi => exact (hno _ (halts_of_error hx hi)).elim
  | case6 _ x c hx => exact (hno _ (halts_of_crash hx)).elim
  | case7 hge => exact absurd hlt hge

theorem moved_writeFrom (hb : b.Honest v) (hst : v.stands (s, h) f written)
    (hc : v.contents s f = some (data.take written)) (hle : written ≤ data.length) :
    Moved v f data (written + (b.chunksFrom s h data written).sum)
      (b.writeFrom s h data written) := by
  induction s, h, written using writeFrom_induction b data with
  | full s h written hge =>
    rw [chunksFrom_of_full hge]
    exact ⟨hc, hle, fun m hm => Nat.le_antisymm hle hge, fun e he => by cases he⟩
  | halts s h written r hlt hr =>
    have hcall := hb.write (data.drop written) hst hc
    rw [chunksFrom_of_halts hlt hr]
    cases hr with
    | stopped ha hr =>
      subst hr
      obtain ⟨-, -, hheld⟩ := hcall.moves 0 ha
      rw [take_write hle] at hheld
      rw [ha]
      exact ⟨hheld, hle, (fun m hm => by cases hm), fun _ _ => hlt⟩
    | overflow n ha hadd hr =>
      subst hr
      obtain ⟨-, hn, hheld⟩ := hcall.moves (n + 1) ha
      rw [take_write hle] at hheld
      rw [List.length_drop] at hn
      rw [ha]
      exact ⟨hheld, (by show written + (n + 1) ≤ _; omega), (fun m hm => by cases hm),
        fun e he => by cases he⟩
    | failed e ha hi hr =>
      subst hr
      rw [ha]
      exact ⟨(hcall.fails _ ha).2, hle, (fun m hm => by cases hm), fun _ _ => hlt⟩
  | continues s h written m hlt hgo ih =>
    obtain ⟨hstands, hheld, hle'⟩ := hb.write_continues hst hc hle hgo
    rw [sum_chunksFrom_of_continues hlt hgo]
    exact ih hstands hheld hle'

theorem contents_writeFull (hb : b.Honest v) (data : List UInt8) (hst : v.stands (s, h) f 0)
    (hc : v.contents s f = some []) :
    Moved v f data (b.chunks s h data).sum (b.writeFull s h data) := by
  have hmoved : Moved v f data (0 + (b.chunks s h data).sum) (b.writeFull s h data) :=
    moved_writeFrom hb hst hc (Nat.zero_le _)
  rwa [Nat.zero_add] at hmoved

/-! ### Openings that fail -/

/-- An opening for writing that fails leaves the file as it is. -/
def KeepsUnopened (b : Backend σ η) (v : View σ η ν) : Prop :=
  ∀ s path native e, v.sound s → b.translate s path = .ok native →
    (b.openFile s native .createTruncate).result = .error (.error e) →
    v.contents (b.openFile s native .createTruncate).state (v.file path) =
      v.contents s (v.file path)

/-- A scripted file fails to open only by a fault, which is found before the file is emptied. -/
theorem Scripted.keepsUnopened (P : Scripted.Faults → Prop) :
    Scripted.backend.KeepsUnopened (Scripted.viewOf P) := by
  intro s path native e _ ht he
  obtain rfl := Scripted.translate_eq ht
  have he : (Scripted.openFile s native .createTruncate).result = .error (.error e) := he
  show (Scripted.openFile s native .createTruncate).state.files native = s.files native
  unfold Scripted.openFile at he ⊢
  split at he
  · rfl
  · dsimp only [Scripted.opened] at he ⊢
    split at he <;> cases he

end FilePipeline.Backend
