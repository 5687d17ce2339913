import FilePipeline.Proofs.Backend.Exchanged
import FilePipeline.Proofs.Backend.Honest

/-! # Backends that misjudge sizes

A backend may do all that it reports and still tell a wrong size: a file may shrink between the question
and the reading, and some files have no size to speak of. `HonestButSizes` asks for the rest of honesty:
the backend is honest if it is never heard about sizes (`untold`), and a question does no harm. What a read
loop finds is then still the front of the file (`HonestButSizes.readFull`). -/

namespace FilePipeline.Backend

variable {σ η ν : Type} {b : Backend σ η} {v : View σ η ν} {s : σ} {h : η} {f : ν}

/-- No size is told. -/
def untold (s : σ) (h : η) : IoReply (σ × η) Nat := ⟨Attempt.fail (.custom .other "no size"), (s, h)⟩

/-- A backend that does what it reports, whatever sizes it tells. -/
structure HonestButSizes (b : Backend σ η) (v : View σ η ν) : Prop where
  others : (b.sizedBy untold).Honest v
  size : ∀ {s h f i}, v.stands (s, h) f i →
    v.stands (b.querySize s h).state f i ∧ v.contents (b.querySize s h).state.1 = v.contents s

theorem Honest.butSizes (hb : b.Honest v) : b.HonestButSizes v where
  others :=
    { openRead := hb.openRead
      openWrite := hb.openWrite
      standing := hb.standing
      size := fun hst _ => ⟨hst, rfl, fun _ hn => by cases hn⟩
      read := hb.read
      write := hb.write
      close := hb.close }
  size hst := by
    obtain ⟨-, data, hc⟩ := hb.standing hst
    have hsize := hb.size hst hc
    exact ⟨hsize.stands, hsize.contents⟩

namespace HonestButSizes

variable {path native : String}

theorem openRead (hb : b.HonestButSizes v) (hs : v.sound s) (ht : b.translate s path = .ok native) :
    v.OpensToRead (v.file path) s (b.openFile s native .sharedRead) := hb.others.openRead hs ht

theorem openWrite (hb : b.HonestButSizes v) (hs : v.sound s) (ht : b.translate s path = .ok native) :
    v.OpensToWrite (v.file path) s (b.openFile s native .createTruncate) := hb.others.openWrite hs ht

theorem readFull (hb : b.HonestButSizes v) {data : List UInt8} (buf : Span)
    (hst : v.stands (s, h) f 0) (hc : v.contents s f = some data) :
    ReadThrough b v f data buf s (b.readFull s h buf) := by
  have hread := readFull_spec hb.others buf hst hc
  have hsame : (b.sizedBy untold).readFull s h buf = b.readFull s h buf :=
    readFull_congr (read_sizedBy b untold) s h buf
  rw [hsame] at hread
  exact ⟨hread.contents, hread.stands, hread.full, hread.cause⟩

theorem writeFull (hb : b.HonestButSizes v) (data : List UInt8)
    (hst : v.stands (s, h) f 0) (hc : v.contents s f = some []) :
    WriteThrough b v f data s (b.writeFull s h data) := by
  have hwrite := writeFull_spec hb.others data hst hc
  have hsame : (b.sizedBy untold).writeFull s h data = b.writeFull s h data :=
    writeFull_congr (write_sizedBy b untold) s h data
  rw [hsame] at hwrite
  exact ⟨hwrite.others, hwrite.stands, hwrite.front, hwrite.full, hwrite.cause⟩

end HonestButSizes

end FilePipeline.Backend
