import FilePipeline.Proofs.Backend.Honest
import FilePipeline.Proofs.Heap.Buffers
import FilePipeline.Proofs.Stage.Buffers

/-! # The I/O stage over an honest backend

What the I/O stage does to the files of an honest backend, and what it makes of a piece of work
(`processIo_read_spec`, `processIo_write_spec`): a read leaves all files as they are and, if it goes
well, gives the work a buffer with the whole contents of its file; a write leaves all other files as
they are and puts its bytes into its own one, or the first of them if it fails.

On a reliable file only the memory can make a read fail, and nothing a write. -/

namespace FilePipeline.Stage

open Backend (Honest Reliable)

variable {σ η κ ν α : Type} {p : Setup σ η κ} {v : View σ η ν} {hs : Heaps} {w : Work} {s : σ} {h : η}
  {f : ν}

/-! ### Opening and closing -/

/-- The file of a piece of work. -/
def fileOf (v : View σ η ν) (w : Work) : ν := v.file w.path.text

/-- Whether the path of a piece of work is one the platform can open. -/
def Openable (w : Work) : Prop := ∃ native, nativePath w.path.text = .ok native

/-- Closing changes no file, and a result is the one there was before. -/
theorem closing_spec {b : Backend σ η} (hb : b.Honest v) {r : Processed (σ × η) α}
    (hst : ∃ i, v.stands r.state f i) :
    v.sound (closing b r).state ∧ v.contents (closing b r).state = v.contents r.state.1 ∧
      (∀ a, (closing b r).result = .ok a → r.result = .ok a) ∧
      (b.Reliable v f → (closing b r).result = r.result) := by
  obtain ⟨i, hst⟩ := hst
  obtain ⟨hsound, hcontents⟩ := hb.close hst
  unfold closing
  split
  · next c hc =>
    exact ⟨(hb.standing hst).1, rfl, (fun a ha => by cases ha), fun _ => hc.symm⟩
  · dsimp only
    split
    · next c hc =>
      refine ⟨hsound, hcontents, (fun a ha => by cases ha), fun hr => ?_⟩
      have hcalm := hr.close hst
      rw [hc] at hcalm
      cases hcalm
    · exact ⟨hsound, hcontents, fun a ha => ha, fun _ => rfl⟩

/-! ### Reads -/

/-- The heap refuses the buffer for a file of the given size. -/
def Refused (p : Setup σ η κ) (hs : Heaps) (w : Work) (size : Nat) (e : AllocError) : Prop :=
  (hs.newBuffer (readTarget p w size).1 (readTarget p w size).2 p.config.bufferAlignment).1 = .error e

/-- How the reading of a file `f` that holds `data` ends: what it makes of the work `w`, and its
    result. -/
structure Fetches (p : Setup σ η κ) (v : View σ η ν) (f : ν) (data : List UInt8) (hs : Heaps)
    (w w' : Work) (result : Attempt WorkError Unit) : Prop where
  /-- If it goes well, the work has a buffer with all of the file. -/
  full : result = .ok () → ∃ b, w' = { w with buffer := .owned b, size := data.length } ∧
    b.Delivers data (w.nullTerminate && !w.compressed)
  /-- If the file is reliable, only a heap that refuses the buffer makes it fail. -/
  served : p.backend.Reliable v f → result = .ok () ∨
    ∃ e, Refused p hs w data.length e ∧ result = Attempt.fail (.memory e)

theorem readTarget_room {size : Nat} (hmax : (readTarget p w size).2 ≤ Layout.maxSize) :
    size ≤ (readTarget p w size).2 ∧
      ((w.nullTerminate && !w.compressed) = true → size < (readTarget p w size).2) := by
  have hlt : Layout.maxSize < Size.max := by decide
  unfold readTarget at hmax ⊢
  cases hc : w.compressed with
  | true => simp
  | false =>
    simp only [hc, Bool.false_eq_true, if_false, Size.saturatingAdd] at hmax ⊢
    refine ⟨by omega, fun hn => ?_⟩
    have hx : w.extra = 1 := if_pos (by simpa using hn)
    omega

theorem readContents_spec (hs : Heaps) (w : Work) (hb : p.backend.Honest v) {data : List UInt8}
    (hst : v.stands (s, h) f 0) (hc : v.contents s f = some data) :
    v.contents (readContents p hs w s h).state.1 = v.contents s ∧
      (∃ i, v.stands (readContents p hs w s h).state f i) ∧
      Fetches p v f data hs w (readContents p hs w s h).work
        (readContents p hs w s h).result := by
  have hsize := hb.size hst hc
  unfold readContents
  dsimp only
  split
  · next e he =>
    refine ⟨hsize.contents, ⟨_, hsize.stands⟩, fun hok => ?_, fun hr => ?_⟩
    · exact nomatch Attempt.mapError_eq_ok.mp hok
    · obtain ⟨n, hn⟩ := hr.size hst
      rw [hn] at he
      cases he
  · next size hn =>
    obtain rfl := hsize.true_size size hn
    split
    · next hnew =>
      exact ⟨hsize.contents, ⟨_, hsize.stands⟩, (fun hok => by cases hok),
        fun _ => Or.inr ⟨_, congrArg Prod.fst hnew, rfl⟩⟩
    · next b hs' hnew =>
      obtain ⟨hstorage, hmax⟩ := Heaps.newBuffer_ok hnew
      obtain ⟨hroom, hextra⟩ := readTarget_room hmax
      have hlt : Layout.maxSize < Size.max := by decide
      have hcap : b.storage.size = (readTarget p w data.length).2 := hstorage.size
      have hbuf : (b.storage.take data.length).size = data.length := by
        rw [Span.size_take, hcap, Nat.min_eq_left hroom]
      have hc' : v.contents (p.backend.querySize s h).state.1 f = some data := by
        rw [hsize.contents]
        exact hc
      have hread := Backend.readFull_spec hb (b.storage.take data.length) hsize.stands hc'
      have hkept := hread.contents.trans hsize.contents
      split
      · next e he =>
        refine ⟨hkept, hread.stands, fun hok => ?_, fun hr => ?_⟩
        · exact nomatch Attempt.mapError_eq_ok.mp hok
        · obtain ⟨n, hn⟩ := hread.ok hr (by omega)
          rw [hn] at he
          cases he
      · next n hn =>
        obtain ⟨hlen, hstarts⟩ := hread.full n hn
        rw [hbuf, Nat.min_self] at hlen
        subst hlen
        rw [hbuf, List.take_length] at hstarts
        have hfilled := hstarts.front (s := b.storage) (by rw [hcap]; exact hroom)
        obtain ⟨b', hb', hdelivers⟩ := Buffer.delivers_of_setLength
          (b := b.write _) hfilled rfl (w.nullTerminate && !w.compressed)
          (fun ht => by
            have := hextra ht
            rw [← hcap] at this
            exact this)
        have hreceived : received w (b.write (b.storage.overlay 0 ⟨data.length, _⟩).byte)
            data.length = .ok b' := hb'
        rw [hreceived]
        refine ⟨hkept, hread.stands, fun _ => ⟨b', ?_, hdelivers⟩, fun _ => Or.inl rfl⟩
        show (w.carry hs' b').1 = _
        unfold Work.carry
        dsimp only
        rw [hdelivers.length]

/-- What the I/O stage does with a read. -/
structure Read (p : Setup σ η κ) (v : View σ η ν) (hs : Heaps) (s : σ) (w : Work)
    (r : Processed σ Unit) : Prop where
  sound : v.sound r.state
  contents : v.contents r.state = v.contents s
  full : r.result = .ok () → ∃ data b, v.contents s (fileOf v w) = some data ∧
    r.work = { w with buffer := .owned b, size := data.length } ∧
    b.Delivers data (w.nullTerminate && !w.compressed)
  served : p.backend.Reliable v (fileOf v w) → Openable w → ∀ data,
    v.contents s (fileOf v w) = some data → r.result = .ok () ∨
      ∃ e, Refused p hs w data.length e ∧ r.result = Attempt.fail (.memory e)

theorem processIo_read_spec (hs : Heaps) (hb : p.backend.Honest v) (hs' : v.sound s)
    (hop : w.op = .read) :
    Read p v hs s w (processIo p hs s w) := by
  unfold processIo
  rw [hop]
  dsimp only
  unfold read withFile
  split
  · next f hf =>
    refine ⟨hs', rfl, fun hok => ?_, fun hr hopen _ _ => ?_⟩
    · exact nomatch Attempt.mapError_eq_ok.mp hok
    · obtain ⟨native, hn⟩ := hr.takes hs' rfl hopen
      rw [hn] at hf
      cases hf
  · next native ht =>
    have hopened := hb.openRead hs' ht
    dsimp only
    split
    · next e he =>
      refine ⟨hopened.sound, hopened.contents, fun hok => ?_, fun hr _ data hd => ?_⟩
      · exact nomatch Attempt.mapError_eq_ok.mp hok
      · obtain ⟨h, hh⟩ := hr.openRead hs' ht rfl hd
        rw [hh] at he
        cases he
    · next h hh =>
      have hst := hopened.stands h hh
      obtain ⟨-, data, hd⟩ := hb.standing hst
      obtain ⟨hkept, hstands, hfetch⟩ := readContents_spec hs w hb hst hd
      obtain ⟨hsound, hclosed, hok, hrel⟩ := closing_spec hb hstands
      have hd' : v.contents s (fileOf v w) = some data := by
        rw [← hopened.contents]
        exact hd
      refine ⟨hsound, hclosed.trans (hkept.trans hopened.contents), fun hr => ?_,
        fun hr _ data' hd'' => ?_⟩
      · obtain ⟨b, hw, hdel⟩ := hfetch.full (hok () hr)
        exact ⟨data, b, hd', by rw [work_closing]; exact hw, hdel⟩
      · obtain rfl : data = data' := Option.some.inj (hd'.symm.trans hd'')
        rw [hrel hr]
        exact hfetch.served hr

/-! ### Writes -/

/-- What the I/O stage does with a write. -/
structure Written (b : Backend σ η) (v : View σ η ν) (s : σ) (w : Work) (r : Processed σ Unit) :
    Prop where
  sound : v.sound r.state
  others : v.Elsewhere (fileOf v w) s r.state
  /-- Its file is as it was, or holds the first bytes of the work, -/
  front : v.contents r.state (fileOf v w) = v.contents s (fileOf v w) ∨
    ∃ n, v.contents r.state (fileOf v w) = some (w.buffer.bytes.take n)
  /-- and all of them if it goes well. -/
  full : r.result = .ok () → v.contents r.state (fileOf v w) = some w.buffer.bytes ∧
    r.work = { w with size := w.buffer.bytes.length }
  served : b.Reliable v (fileOf v w) → Openable w → w.buffer.bytes.length ≤ Size.max →
    r.result = .ok ()

/-- The same for the file of a write before the size is noted. -/
structure Stored (b : Backend σ η) (v : View σ η ν) (s : σ) (w : Work) (r : Processed σ Nat) :
    Prop where
  sound : v.sound r.state
  others : v.Elsewhere (fileOf v w) s r.state
  front : v.contents r.state (fileOf v w) = v.contents s (fileOf v w) ∨
    ∃ n, v.contents r.state (fileOf v w) = some (w.buffer.bytes.take n)
  full : ∀ n, r.result = .ok n → n = w.buffer.bytes.length ∧
    v.contents r.state (fileOf v w) = some w.buffer.bytes ∧ r.work = w
  served : b.Reliable v (fileOf v w) → Openable w → w.buffer.bytes.length ≤ Size.max →
    ∃ n, r.result = .ok n

theorem withFile_write_spec (hs : Heaps) (w : Work) (hb : p.backend.Honest v) (hs' : v.sound s) :
    Stored p.backend v s w (withFile p hs s w .createTruncate (writeContents p hs w)) := by
  unfold withFile
  split
  · next f hf =>
    refine ⟨hs', fun _ _ => rfl, Or.inl rfl, fun n hok => ?_, fun hr hopen _ => ?_⟩
    · exact nomatch Attempt.mapError_eq_ok.mp hok
    · obtain ⟨native, hn⟩ := hr.takes hs' rfl hopen
      rw [hn] at hf
      cases hf
  · next native ht =>
    have hopened := hb.openWrite hs' ht
    dsimp only
    split
    · next e he =>
      refine ⟨hopened.sound, hopened.others, ?_, fun n hok => ?_, fun hr _ _ => ?_⟩
      · rcases hopened.kept with hk | hk
        · exact Or.inl hk
        · exact Or.inr ⟨0, hk⟩
      · exact nomatch Attempt.mapError_eq_ok.mp hok
      · obtain ⟨h, hh⟩ := hr.openWrite hs' ht rfl
        rw [hh] at he
        cases he
    · next h hh =>
      obtain ⟨hst, hempty⟩ := hopened.stands h hh
      have hwrite := Backend.writeFull_spec hb w.buffer.bytes hst hempty
      obtain ⟨hsound, hclosed, hok, hrel⟩ :=
        closing_spec (r := writeContents p hs w _ h) hb hwrite.stands
      have hresult : (writeContents p hs w (p.backend.openFile s native .createTruncate).state
          h).result = Attempt.mapError .io (p.backend.writeFull
            (p.backend.openFile s native .createTruncate).state h w.buffer.bytes).result := rfl
      refine ⟨hsound, fun g hg => ?_, Or.inr ?_, fun n hr => ?_, fun hr _ hmax => ?_⟩
      · rw [hclosed]
        exact (hwrite.others g hg).trans (hopened.others g hg)
      · rw [hclosed]
        exact hwrite.front
      · have hn := hok n hr
        rw [hresult] at hn
        cases hfull : (p.backend.writeFull (p.backend.openFile s native .createTruncate).state h
            w.buffer.bytes).result with
        | error e => rw [hfull] at hn; exact nomatch Attempt.mapError_eq_ok.mp hn
        | ok m =>
          rw [hfull] at hn
          cases hn
          obtain ⟨hlen, hall⟩ := hwrite.full _ hfull
          exact ⟨hlen, by rw [hclosed]; exact hall, work_closing _ _⟩
      · obtain ⟨n, hn⟩ := hwrite.ok hr hmax
        rw [hrel hr, hresult, hn]
        exact ⟨n, rfl⟩

theorem processIo_write_spec (hs : Heaps) (hb : p.backend.Honest v) (hs' : v.sound s)
    (hop : w.op = .write) :
    Written p.backend v s w (processIo p hs s w) := by
  have h := withFile_write_spec hs w hb hs'
  unfold processIo
  rw [hop]
  dsimp only
  unfold write
  dsimp only
  split
  · next n hn =>
    obtain ⟨rfl, hall, hw⟩ := h.full n hn
    exact ⟨h.sound, h.others, h.front, fun _ => ⟨hall, by rw [hw]⟩, fun _ _ _ => rfl⟩
  · next e he =>
    refine ⟨h.sound, h.others, h.front, (fun hok => by cases hok), fun hr hopen hmax => ?_⟩
    obtain ⟨n, hn⟩ := h.served hr hopen hmax
    rw [he] at hn
    cases hn

/-- Not all bytes of a write come to its file, which was opened. -/
def BreaksOff (p : Setup σ η κ) (s : σ) (w : Work) : Prop :=
  ∃ native h e, p.backend.translate s w.path.text = .ok native ∧
    (p.backend.openFile s native .createTruncate).result = .ok h ∧
    (p.backend.writeFull (p.backend.openFile s native .createTruncate).state h
      w.buffer.bytes).result = .error e

/-- A write that breaks off fails, and its file holds the first bytes of the work, but not all. -/
theorem torn_of_breaksOff (hs : Heaps) (hb : p.backend.Honest v) (hs' : v.sound s)
    (hop : w.op = .write) (hmax : w.buffer.bytes.length ≤ Size.max) (h : BreaksOff p s w) :
    (∃ e, (processIo p hs s w).result = .error e) ∧ ∃ n < w.buffer.bytes.length,
      v.contents (processIo p hs s w).state (fileOf v w) = some (w.buffer.bytes.take n) := by
  obtain ⟨native, h, e, ht, hh, he⟩ := h
  obtain ⟨hst, hempty⟩ := (hb.openWrite hs' ht).stands h hh
  have hwrite := Backend.writeFull_spec hb w.buffer.bytes hst hempty
  obtain ⟨n, hn, htorn⟩ := Backend.writeFrom_torn hb hst hempty (Nat.zero_le _) hmax he
  obtain ⟨-, hclosed, -⟩ := closing_spec (r := writeContents p hs w _ h) hb hwrite.stands
  have hfail : ∃ f, (writeContents p hs w (p.backend.openFile s native .createTruncate).state
      h).result = .error f := by
    unfold writeContents
    dsimp only
    rw [he]
    exact Attempt.exists_mapError_error ..
  obtain ⟨f, hf⟩ := hfail
  obtain ⟨f', hf'⟩ := closing_of_error (b := p.backend) hf
  have hfile : withFile p hs s w .createTruncate (writeContents p hs w) =
      closing p.backend (writeContents p hs w
        (p.backend.openFile s native .createTruncate).state h) := by
    unfold withFile
    rw [ht]
    dsimp only
    rw [hh]
  unfold processIo
  rw [hop]
  dsimp only
  unfold write
  dsimp only
  rw [hfile, hf']
  refine ⟨⟨_, rfl⟩, n, hn, ?_⟩
  dsimp only
  rw [hclosed]
  exact htorn

theorem heaps_processIo_write (p : Setup σ η κ) (hs : Heaps) (s : σ) (hop : w.op = .write) :
    (processIo p hs s w).heaps = hs := by
  have hfile : (withFile p hs s w .createTruncate (writeContents p hs w)).heaps = hs := by
    unfold withFile
    split
    · rfl
    · dsimp only
      split
      · rfl
      · rw [heaps_closing]; rfl
  unfold processIo
  rw [hop]
  dsimp only
  unfold write
  dsimp only
  split <;> exact hfile

end FilePipeline.Stage
