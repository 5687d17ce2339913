import FilePipeline.Proofs.Backend.Misjudging
import FilePipeline.Proofs.Stage.Effects

/-! # What stands behind the bytes of a read

The buffer of a read shows one more byte than the read has got if it has room for it. There is room if a
terminator was asked for, and a zero is there then. But there is room as well if the backend told a larger
size than the file has (`TooLarge`), and nobody asked what to put there (`HasLoaded.exposes`). The
compression stage makes its buffers as large as they need to be (`exposes_decompressed`). -/

namespace FilePipeline

/-- The bytes of a buffer that came from a heap and the one after them, if there is room for one. -/
def WorkBuffer.terminated? : WorkBuffer → Option (List UInt8)
  | .owned b => b.terminated?
  | _ => Option.none

/-- Whether a buffer shows one more byte, and that it is a zero if it was `asked` for. -/
structure WorkBuffer.Exposes (b : WorkBuffer) (asked : Bool) (exposed : Prop) : Prop where
  isSome : b.terminated?.isSome = true ↔ exposed
  asked : asked = true → ∃ data, b.bytes? = some data ∧ b.terminated? = some (data ++ [0])

theorem Buffer.Filled.exposes {b₀ b : Buffer} {n size : Nat} {asked : Bool}
    (h : b₀.Filled n asked b) (hcap : b₀.capacity = size + (if asked then 1 else 0)) (hn : n ≤ size) :
    (WorkBuffer.owned b).Exposes asked (asked = true ∨ n < size) := by
  refine ⟨?_, fun hasked => ⟨b.bytes, rfl, h.terminator hasked ?_⟩⟩
  · show b.terminated?.isSome = true ↔ _
    rw [h.isSome_terminated?, hcap]
    cases asked with
    | false => simp
    | true => simpa using Nat.lt_succ_of_le hn
  · rw [hcap, if_pos hasked]
    omega

namespace Stage

open Backend (HonestButSizes)

variable {σ η κ ν : Type} {p : Setup σ η κ} {v : View σ η ν} {hs : Heaps} {w w' : Work} {s : σ} {h : η}
  {f : ν} {k : κ} {size n : Nat}

/-! ### The I/O stage -/

/-- The backend tells a size for the file of a read that is larger than what it holds. -/
def TooLarge (p : Setup σ η κ) (v : View σ η ν) (s : σ) (w : Work) : Prop :=
  ∃ path h size data, p.backend.translate s w.path.text = .ok path ∧
    (p.backend.openFile s path .sharedRead).result = .ok h ∧
    (p.backend.querySize (p.backend.openFile s path .sharedRead).state h).result = .ok size ∧
    v.contents s (fileOf v w) = some data ∧ data.length < size

/-- A read loads its file up to the size that was told. -/
theorem HasLoaded.least (hb : p.backend.HonestButSizes v) (hs : v.sound s)
    (hl : HasLoaded p s w w' size n) :
    ∃ data, v.contents s (fileOf v w) = some data ∧ n = min size data.length := by
  obtain ⟨path, h, b, ht, ho, hloads, -⟩ := hl
  have hopened := hb.openRead hs ht
  have hst := hopened.stands h ho
  obtain ⟨-, data, hd⟩ := hb.others.standing hst
  obtain ⟨hst', hsame⟩ := hb.size hst
  obtain ⟨buf, hbuf, hread⟩ := hloads.read
  have hd' : v.contents (p.backend.querySize (p.backend.openFile s path .sharedRead).state h).state.1
      (fileOf v w) = some data := by
    rw [hsame]
    exact hd
  have hfull := ((hb.readFull buf hst' hd').full n hread).1
  rw [hbuf] at hfull
  have hwas : v.contents s (fileOf v w) = some data := by
    rw [← hopened.contents]
    exact hd
  exact ⟨data, hwas, hfull⟩

theorem HasLoaded.lt_iff (hb : p.backend.HonestButSizes v) (hs : v.sound s)
    (hl : HasLoaded p s w w' size n) : n < size ↔ TooLarge p v s w := by
  obtain ⟨data, hd, hn⟩ := hl.least hb hs
  obtain ⟨path, h, b, ht, ho, hloads, -⟩ := hl
  constructor
  · intro hlt
    exact ⟨path, h, size, data, ht, ho, hloads.told, hd, by omega⟩
  · rintro ⟨path', h', size', data', ht', ho', hsize', hd', hlt⟩
    obtain rfl := Except.ok.inj (ht.symm.trans ht')
    obtain rfl := Except.ok.inj (ho.symm.trans ho')
    obtain rfl := Except.ok.inj (hloads.told.symm.trans hsize')
    obtain rfl := Option.some.inj (hd.symm.trans hd')
    omega

theorem HasLoaded.exposes (hb : p.backend.HonestButSizes v) (hs : v.sound s)
    (hl : HasLoaded p s w w' size n) : w'.buffer.Exposes (w.nullTerminate && !w.compressed)
      ((w.nullTerminate && !w.compressed) = true ∨ TooLarge p v s w) := by
  have hlt := hl.lt_iff hb hs
  obtain ⟨data, -, hn⟩ := hl.least hb hs
  obtain ⟨path, h, b, -, -, hloads, rfl⟩ := hl
  obtain ⟨b₀, hcap, hfilled⟩ := hloads.filled
  have hexposes := hfilled.exposes hcap (by omega)
  rwa [hlt] at hexposes

theorem stands_readContents (hs : Heaps) (hb : p.backend.HonestButSizes v) (hst : v.stands (s, h) f 0) :
    ∃ i, v.stands (readContents p hs w s h).state f i := by
  obtain ⟨hst', hsame⟩ := hb.size hst
  obtain ⟨-, data, hd⟩ := hb.others.standing hst'
  unfold readContents
  dsimp only
  split
  · exact ⟨_, hst'⟩
  · split
    · exact ⟨_, hst'⟩
    · have hread := fun buf => (hb.readFull buf hst' hd).stands
      split
      · exact hread _
      · split <;> exact hread _

/-- Whatever sizes the backend tells, it stays sound. -/
theorem sound_of_processIo (hs : Heaps) (hb : p.backend.HonestButSizes v) (hs' : v.sound s) :
    v.sound (processIo p hs s w).state := by
  have closed : ∀ {β : Type} {r : Processed (σ × η) β} {f : ν}, (∃ i, v.stands r.state f i) →
      v.sound (closing p.backend r).state := fun hst => (closing_spec hb.others hst).1
  cases hop : w.op with
  | read =>
    unfold processIo
    rw [hop]
    dsimp only
    unfold read withFile
    split
    · exact hs'
    · next path ht =>
      have hopened := hb.openRead hs' ht
      dsimp only
      split
      · exact hopened.sound
      · next h ho => exact closed (stands_readContents hs hb (hopened.stands h ho))
  | write =>
    rw [(processIo_write_eq p hs s hop).1]
    unfold withFile
    split
    · exact hs'
    · next path ht =>
      have hopened := hb.openWrite hs' ht
      dsimp only
      split
      · exact hopened.sound
      · next h ho =>
        obtain ⟨hst, hempty⟩ := hopened.stands h ho
        exact closed (r := writeContents p hs w _ h) (hb.writeFull w.buffer.bytes hst hempty).stands

/-! ### The compression stage -/

theorem exposes_decompressed (hop : w.op = .read) (hok : (processCompression p hs k w).result = .ok ()) :
    (processCompression p hs k w).work.buffer.Exposes w.nullTerminate (w.nullTerminate = true) := by
  rw [processCompression_read p hs k hop] at hok ⊢
  rcases unpack_cases p hs k { w with buffer := .none } w.buffer.bytes with
    ⟨-, b₀, n, b, -, hcap, hfilled, hwork⟩ | ⟨⟨f, hf⟩, -⟩
  · show (unpack p hs k { w with buffer := .none } w.buffer.bytes).work.buffer.Exposes _ _
    rw [hwork]
    simpa using hfilled.exposes hcap (Nat.le_refl n)
  · cases hok.symm.trans hf

end Stage

end FilePipeline
