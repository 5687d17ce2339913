import FilePipeline.Proofs.Frame.Confined
import FilePipeline.Proofs.Stage.Brackets
import FilePipeline.Proofs.Stage.Terminators

/-! # The header of a file that is read as a frame

A compressed read loads the front of its file, and the compression stage gives it a buffer that is as long
as the header there says, with a terminator behind it if one was asked for. What the codec answers and
writes has no part in either. -/

namespace FilePipeline.Stage

open Backend (HonestButSizes)

variable {σ η κ ν : Type} {p : Setup σ η κ} {v : View σ η ν} {hs : Heaps} {w : Work} {s : σ} {h : η}
  {f : ν} {k : κ} {data : List UInt8}

/-! ### The I/O stage -/

theorem readContents_front (hb : p.backend.HonestButSizes v) (hcompressed : w.compressed = true)
    (hst : v.stands (s, h) f 0) (hd : v.contents s f = some data)
    (hok : (readContents p hs w s h).result = .ok ()) :
    ∃ n, (readContents p hs w s h).work.buffer.bytes = data.take n := by
  obtain ⟨hst', hsame⟩ := hb.size hst
  rw [← hsame] at hd
  revert hok
  unfold readContents
  dsimp only
  split
  · next f _ => exact fun hok => nomatch Attempt.mapError_eq_ok.mp hok
  · next size hsize =>
    split
    · exact fun hok => by cases hok
    · next b _ hnew =>
      have hbuf : (b.storage.take size).size = size := by
        have hcap := capacity_of_readTarget hnew
        rw [Span.size_take, show b.storage.size = _ from hcap]
        exact Nat.min_eq_left (Nat.le_add_right _ _)
      have hread := hb.readFull (b.storage.take size) hst' hd
      generalize p.backend.readFull (p.backend.querySize s h).state.1 (p.backend.querySize s h).state.2
        (b.storage.take size) = r at hread
      split
      · next f _ => exact fun hok => nomatch Attempt.mapError_eq_ok.mp hok
      · next n hn =>
        obtain ⟨hlen, hstarts⟩ := hread.full n hn
        rw [hbuf] at hlen hstarts
        have hfits : size ≤ b.storage.size := by
          rw [Span.size_take] at hbuf
          omega
        -- what was loaded is at the front of the buffer, and no terminator is put behind it
        obtain ⟨b', hb', hdelivers⟩ := Buffer.delivers_of_setLength (b := b.write _)
          (hstarts.front hfits) (n := n) (by rw [List.length_take]; omega) false
          (fun ht => by cases ht)
        have hreceived :
            received w (b.write (b.storage.overlay 0 ⟨size, r.written⟩).byte) n = .ok b' := by
          unfold received
          rw [hcompressed, Bool.not_true, Bool.and_false]
          exact hb'
        rw [hreceived]
        exact fun _ => ⟨n, hdelivers.bytes⟩

/-- A compressed read that comes out of the I/O stage well holds the front of its file. -/
theorem processIo_front (hb : p.backend.HonestButSizes v) (hs' : v.sound s) (hop : w.op = .read)
    (hcompressed : w.compressed = true) (hok : (processIo p hs s w).result = .ok ()) :
    ∃ data n, v.contents s (fileOf v w) = some data ∧
      (processIo p hs s w).work.buffer.bytes = data.take n := by
  have hmode : opening w.op = .sharedRead := by rw [hop]; rfl
  rw [processIo_of_read _ _ _ hop, hmode] at hok ⊢
  revert hok
  unfold withFile
  split
  · next f _ => exact fun hok => nomatch Attempt.mapError_eq_ok.mp hok
  · next path ht =>
    have hopened : v.OpensToRead (fileOf v w) s (p.backend.openFile s path .sharedRead) :=
      hb.openRead hs' ht
    dsimp only
    split
    · next f _ => exact fun hok => nomatch Attempt.mapError_eq_ok.mp hok
    · next h hh =>
      intro hok
      have hst := hopened.stands h hh
      obtain ⟨-, data, hd⟩ := hb.others.standing hst
      have hcontents : v.contents s (fileOf v w) = some data := by
        rw [← hopened.contents]
        exact hd
      have hbody : (readContents p hs w (p.backend.openFile s path .sharedRead).state h).result =
          .ok () := by
        by_contra hne
        cases hres : (readContents p hs w (p.backend.openFile s path .sharedRead).state h).result with
        | ok u => exact hne hres
        | error f =>
          obtain ⟨f', hf⟩ := closing_of_error (b := p.backend) hres
          cases hok.symm.trans hf
      obtain ⟨n, hbytes⟩ := readContents_front hb hcompressed hst hd hbody
      refine ⟨data, n, hcontents, ?_⟩
      rw [work_closing]
      exact hbytes

/-! ### The compression stage -/

/-- A read that comes out of the compression stage well has a buffer of the length in the header. -/
theorem header_of_decompressed (hop : w.op = .read)
    (hok : (processCompression p hs k w).result = .ok ()) :
    ∃ b, (processCompression p hs k w).work.buffer = .owned b ∧
      Frame.readHeader w.buffer.bytes = .ok b.bytes.length ∧
      (processCompression p hs k w).work.size = b.bytes.length ∧
      (w.nullTerminate = true → b.terminated? = some (b.bytes ++ [0])) := by
  rw [processCompression_read p hs k hop] at hok ⊢
  rcases unpack_cases p hs k { w with buffer := .none } w.buffer.bytes with
    ⟨-, b₀, n, b, hheader, hcap, hfilled, hwork⟩ | ⟨⟨f, hf⟩, -⟩
  · refine ⟨b, congrArg Work.buffer hwork, ?_, ?_, fun hnull => hfilled.terminator hnull ?_⟩
    · rw [hfilled.length_bytes]
      exact (Frame.examine_iff.mp hheader).1
    · rw [hfilled.length_bytes, ← hfilled.length]
      exact congrArg Work.size hwork
    · have hextra : ({ w with buffer := .none } : Work).extra = 1 := if_pos hnull
      rw [hcap, hextra]
      exact Nat.lt_succ_self n
  · cases hok.symm.trans hf

end FilePipeline.Stage
