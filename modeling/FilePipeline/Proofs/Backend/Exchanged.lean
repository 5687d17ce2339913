import FilePipeline.Proofs.Backend.PerPath

/-! # Backends with one call exchanged

A whole transfer depends on the calls that it makes and on no others: `readFull` on the reads of a backend,
`writeFull` on its writes. So both stay what they are if a backend closes its files in another way
(`closedBy`), or answers otherwise when it is asked for a size (`sizedBy`). -/

namespace FilePipeline.Backend

variable {σ η : Type} {b b' : Backend σ η}

/-- The backend that closes its files by the given function. -/
def closedBy (b : Backend σ η) (close : σ → η → IoReply σ Unit) : Backend σ η := { b with close }

/-- The backend that tells sizes by the given function. -/
def sizedBy (b : Backend σ η) (querySize : σ → η → IoReply (σ × η) Nat) : Backend σ η :=
  { b with querySize }

theorem read_sizedBy (b : Backend σ η) (querySize : σ → η → IoReply (σ × η) Nat) :
    (b.sizedBy querySize).read = b.read := rfl

theorem write_sizedBy (b : Backend σ η) (querySize : σ → η → IoReply (σ × η) Nat) :
    (b.sizedBy querySize).write = b.write := rfl

theorem readFrom_congr (hb : b'.read = b.read) (s : σ) (h : η) (buf : Span) (filled : Nat) :
    b'.readFrom s h buf filled = b.readFrom s h buf filled := by
  induction s, h, buf, filled using readFrom_induction b with
  | full s h buf filled hge => exact readFrom_of_full hge
  | halts s h buf filled r hlt hr =>
    rw [← hb] at hr ⊢
    exact readFrom_of_halts hlt hr
  | continues s h buf filled m hlt hgo ih =>
    rw [← hb] at hgo ih ⊢
    exact (readFrom_of_continues hlt hgo).trans ih

theorem writeFrom_congr (hb : b'.write = b.write) (s : σ) (h : η) (data : List UInt8) (written : Nat) :
    b'.writeFrom s h data written = b.writeFrom s h data written := by
  induction s, h, written using writeFrom_induction b data with
  | full s h written hge => exact writeFrom_of_full hge
  | halts s h written r hlt hr =>
    rw [← hb] at hr ⊢
    exact writeFrom_of_halts hlt hr
  | continues s h written m hlt hgo ih =>
    rw [← hb] at hgo ih ⊢
    exact (writeFrom_of_continues hlt hgo).trans ih

theorem readFull_congr (hb : b'.read = b.read) (s : σ) (h : η) (buf : Span) :
    b'.readFull s h buf = b.readFull s h buf := readFrom_congr hb s h buf 0

theorem writeFull_congr (hb : b'.write = b.write) (s : σ) (h : η) (data : List UInt8) :
    b'.writeFull s h data = b.writeFull s h data := writeFrom_congr hb s h data 0

end FilePipeline.Backend
