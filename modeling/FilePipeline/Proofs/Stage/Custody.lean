import FilePipeline.Proofs.Heap.Ledger
import FilePipeline.Proofs.Stage.Identity
import Mathlib.Algebra.Order.Group.Multiset

/-! # Blocks of work

Work that owns a buffer owns its block. Whatever a stage does with a piece of work, and however that
ends, it trades the blocks that the work owned before for those that it owns afterwards
(`traded_processIo`, `traded_processCompression`); blocks of others are not touched. -/

namespace FilePipeline

/-- The block under the buffer of a piece of work, if it owns one. -/
def WorkBuffer.leases : WorkBuffer → Multiset Lease
  | .owned b => {b.lease}
  | _ => 0

theorem WorkBuffer.traded_drop {hs : Heaps} {b : WorkBuffer} {m : Multiset Lease}
    (h : hs.Ledger (b.leases + m)) : hs.Traded (b.leases + m) (b.drop hs).1 m := by
  cases b with
  | owned b =>
    rw [show (WorkBuffer.owned b).leases + m = b.lease ::ₘ m from Multiset.singleton_add _ _] at h ⊢
    exact Heaps.traded_dropBuffer h
  | none | caller =>
    exact (Multiset.zero_add m).symm ▸ .refl hs m

theorem Work.traded_carry {hs : Heaps} {w : Work} {b : Buffer} {m : Multiset Lease}
    (h : hs.Ledger (b.lease ::ₘ (w.buffer.leases + m))) :
    hs.Traded (b.lease ::ₘ (w.buffer.leases + m)) (w.carry hs b).2
      ((w.carry hs b).1.buffer.leases + m) := by
  rw [← Multiset.add_cons] at h ⊢
  rw [show (w.carry hs b).1.buffer.leases + m = b.lease ::ₘ m from Multiset.singleton_add _ _]
  exact WorkBuffer.traded_drop h

/-- A stage trades the blocks of a piece of work for those that it owns then. The blocks `m` are
    others. -/
def Processed.Trades {τ α : Type} (hs : Heaps) (w : Work) (m : Multiset Lease)
    (r : Processed τ α) : Prop :=
  hs.Traded (w.buffer.leases + m) r.heaps (r.work.buffer.leases + m)

namespace Stage

variable {σ η κ α : Type} {p : Setup σ η κ} {hs hs' : Heaps} {w : Work} {s : σ}
  {m : Multiset Lease}

/-! ### Buffers that are filled -/

theorem lease_setLength {b b' : Buffer} {n : Nat} (h : b.setLength n = .ok b') :
    b'.lease = b.lease := by
  unfold Buffer.setLength at h
  split at h
  · cases h
    rfl
  · cases h

/-- A buffer is the same block after its length was set and it was terminated where asked for. -/
theorem lease_filled {b b' : Buffer} {n : Nat} {terminated : Bool}
    (h : (b.setLength n).map (fun b => if terminated then b.terminate.2 else b) = .ok b') :
    b'.lease = b.lease := by
  cases hb : b.setLength n with
  | error c =>
    rw [hb] at h
    cases h
  | ok b₁ =>
    rw [hb] at h
    obtain rfl : (if terminated then b₁.terminate.2 else b₁) = b' := Except.ok.inj h
    rw [← lease_setLength hb]
    split
    · unfold Buffer.terminate
      split <;> rfl
    · rfl

theorem lease_received {b b' : Buffer} {n : Nat} (h : received w b n = .ok b') :
    b'.lease = b.lease := lease_filled h

theorem lease_unpacked {b b' : Buffer} {n : Nat} (h : unpacked w b n = .ok b') :
    b'.lease = b.lease := lease_filled h

/-! ### The I/O stage -/

theorem trades_withFile {mode : OpenMode} {body : σ → η → Processed (σ × η) α}
    (h : ∀ s h, (body s h).Trades hs w m) : (withFile p hs s w mode body).Trades hs w m := by
  unfold withFile Processed.Trades
  split
  · exact .refl hs _
  · dsimp only
    split
    · exact .refl hs _
    · rw [heaps_closing, work_closing]
      exact h _ _

theorem trades_readContents (hl : hs.Ledger (w.buffer.leases + m)) (h : η) :
    (readContents p hs w s h).Trades hs w m := by
  unfold readContents Processed.Trades
  dsimp only
  split
  · exact .refl hs _
  · split
    · next hn => exact Heaps.traded_refused _ hn
    · next b hs' hn =>
      have hnew := Heaps.traded_newBuffer (w.buffer.leases + m) hn
      split
      · exact hnew.trans (Heaps.traded_dropBuffer (hnew.ledger hl))
      · split
        · exact hnew.trans (Heaps.traded_dropBuffer (hnew.ledger hl))
        · next b' hb' =>
          rw [show b.lease = b'.lease from (lease_received hb').symm] at hnew
          exact hnew.trans (Work.traded_carry (hnew.ledger hl))

theorem traded_processIo (p : Setup σ η κ) (s : σ) (hl : hs.Ledger (w.buffer.leases + m)) :
    (processIo p hs s w).Trades hs w m := by
  unfold processIo
  split
  · exact trades_withFile fun s h => trades_readContents hl h
  · have h : (withFile p hs s w .createTruncate (writeContents p hs w)).Trades hs w m :=
      trades_withFile fun _ _ => .refl hs _
    unfold write Processed.Trades
    dsimp only
    split <;> exact h

/-! ### The compression stage -/

theorem trades_compress (p : Setup σ η κ) (s : κ) (hl : hs.Ledger (w.buffer.leases + m)) :
    (compress p hs s w).Trades hs w m := by
  unfold compress Processed.Trades
  dsimp only
  split
  · exact .refl hs _
  · split
    · next hn => exact Heaps.traded_refused _ hn
    · next b hs' hn =>
      have hnew := Heaps.traded_newBuffer (w.buffer.leases + m) hn
      split
      · exact hnew.trans (Heaps.traded_dropBuffer (hnew.ledger hl))
      · split
        · exact hnew.trans (Heaps.traded_dropBuffer (hnew.ledger hl))
        · next b' hb' =>
          rw [show b.lease = b'.lease from (lease_setLength hb').symm] at hnew
          exact hnew.trans (Work.traded_carry (hnew.ledger hl))

theorem trades_unpack (p : Setup σ η κ) (s : κ) (frame : List UInt8)
    (hl : hs.Ledger (w.buffer.leases + m)) : (unpack p hs s w frame).Trades hs w m := by
  unfold unpack Processed.Trades
  split
  · exact .refl hs _
  · split
    · next hn => exact Heaps.traded_refused _ hn
    · next b hs' hn =>
      have hnew := Heaps.traded_newBuffer (w.buffer.leases + m) hn
      dsimp only
      split
      · exact hnew.trans (Heaps.traded_dropBuffer (hnew.ledger hl))
      · split
        · exact hnew.trans (Heaps.traded_dropBuffer (hnew.ledger hl))
        · next b' hb' =>
          rw [show b.lease = b'.lease from (lease_unpacked hb').symm] at hnew
          exact hnew.trans (Work.traded_carry (hnew.ledger hl))

/-- The frame is let go at the end, whatever became of its payload. -/
theorem trades_decompress (p : Setup σ η κ) (s : κ) (hl : hs.Ledger (w.buffer.leases + m)) :
    (decompress p hs s w).Trades hs w m := by
  have hempty : ({ w with buffer := .none } : Work).buffer.leases + (w.buffer.leases + m) =
      w.buffer.leases + m := Multiset.zero_add _
  have h := trades_unpack (w := { w with buffer := .none }) p s w.buffer.bytes
    (by rw [hempty]; exact hl)
  unfold Processed.Trades at h
  rw [hempty, add_left_comm] at h
  exact h.trans (WorkBuffer.traded_drop (h.ledger hl))

theorem traded_processCompression (p : Setup σ η κ) (s : κ)
    (hl : hs.Ledger (w.buffer.leases + m)) : (processCompression p hs s w).Trades hs w m := by
  unfold processCompression
  split
  · exact trades_decompress p s hl
  · exact trades_compress p s hl

end Stage

end FilePipeline
