import FilePipeline.Proofs.Backend.Loops
import FilePipeline.Proofs.Memory.Prefix

/-! # Honest backends

A backend is looked at through a `View`: which files there are and what each of them holds, whatever
else its states keep. An honest backend moves the bytes it reports and no others, tells a file's true
size or fails, and reads no bytes only at the end of a file (`Honest`). It may fail or crash in any
call, move as little as it likes, and be interrupted; a call that fails has then moved nothing.

Whole transfers over such a backend do what they say: `readFrom_spec` and `writeFrom_spec` go along
their loops, with what was moved so far as the invariant.

A backend is `Reliable` on a file if besides it fails in no call on it but by interruptions, and takes
something in each write. -/

namespace FilePipeline

/-- What is seen of a backend: the files that paths name, and what a state says about them. -/
structure View (σ η ν : Type) where
  /-- The states that are looked at. -/
  sound : σ → Prop
  /-- The file that a path names. -/
  file : String → ν
  contents : σ → ν → Option (List UInt8)
  /-- That an open handle stands at an offset of a file. -/
  stands : σ × η → ν → Nat → Prop

namespace View

variable {σ η ν : Type} (v : View σ η ν)

/-- The file `f` holds `bytes` now, and all other files what they held before. -/
structure Rewritten (f : ν) (bytes : List UInt8) (s s' : σ) : Prop where
  here : v.contents s' f = some bytes
  others : ∀ g, g ≠ f → v.contents s' g = v.contents s g

/-- At most the file `f` has changed. -/
def Elsewhere (f : ν) (s s' : σ) : Prop := ∀ g, g ≠ f → v.contents s' g = v.contents s g

/-! ### Single calls -/

/-- What opening the file `f` for reading does. -/
structure OpensToRead (f : ν) (s : σ) (r : IoReply σ η) : Prop where
  sound : v.sound r.state
  contents : v.contents r.state = v.contents s
  stands : ∀ h, r.result = .ok h → v.stands (r.state, h) f 0

/-- What opening the file `f` for writing does: it is empty then. If the opening fails, it may be. -/
structure OpensToWrite (f : ν) (s : σ) (r : IoReply σ η) : Prop where
  sound : v.sound r.state
  others : v.Elsewhere f s r.state
  stands : ∀ h, r.result = .ok h → v.stands (r.state, h) f 0 ∧ v.contents r.state f = some []
  kept : v.contents r.state f = v.contents s f ∨ v.contents r.state f = some []

/-- What asking for the size of a file that holds `data` does. -/
structure Sizes (f : ν) (i : Nat) (data : List UInt8) (s : σ) (r : IoReply (σ × η) Nat) : Prop where
  stands : v.stands r.state f i
  contents : v.contents r.state.1 = v.contents s
  true_size : ∀ n, r.result = .ok n → n = data.length

/-- What reading from offset `i` of a file that holds `data` does. -/
structure Reads (f : ν) (i : Nat) (data : List UInt8) (dst : Span) (s : σ)
    (r : ReadReply (σ × η)) : Prop where
  contents : v.contents r.state.1 = v.contents s
  /-- The bytes reported are those that stand there. -/
  moves : ∀ n, r.result = .ok n → v.stands r.state f (i + n) ∧ n ≤ dst.size ∧
    i + n ≤ data.length ∧ (⟨dst.size, r.written⟩ : Span).Starts ((data.drop i).take n)
  /-- No bytes are read only at the end of the file. -/
  ends : r.result = .ok 0 → dst.size = 0 ∨ i = data.length
  fails : ∀ f', r.result = .error f' → v.stands r.state f i

/-- What writing `src` at offset `i` of a file that holds `data` does. -/
structure Writes (f : ν) (i : Nat) (data src : List UInt8) (s : σ) (r : IoReply (σ × η) Nat) :
    Prop where
  others : v.Elsewhere f s r.state.1
  /-- The bytes reported are those that stand there afterwards. -/
  moves : ∀ n, r.result = .ok n → v.stands r.state f (i + n) ∧ n ≤ src.length ∧
    v.contents r.state.1 f = some (data.take i ++ src.take n ++ data.drop (i + n))
  fails : ∀ f', r.result = .error f' → v.stands r.state f i ∧ v.contents r.state.1 f = some data

end View

namespace Backend

variable {σ η ν : Type} {b : Backend σ η} {v : View σ η ν} {s : σ} {h : η} {f : ν}

/-- A backend that does what it reports. Nothing is said about handles that do not stand anywhere, nor
    about paths that it does not take. -/
structure Honest (b : Backend σ η) (v : View σ η ν) : Prop where
  openRead : ∀ {s path native}, v.sound s → b.translate s path = .ok native →
    v.OpensToRead (v.file path) s (b.openFile s native .sharedRead)
  openWrite : ∀ {s path native}, v.sound s → b.translate s path = .ok native →
    v.OpensToWrite (v.file path) s (b.openFile s native .createTruncate)
  /-- A handle stands at a file that is there. -/
  standing : ∀ {x f i}, v.stands x f i → v.sound x.1 ∧ ∃ data, v.contents x.1 f = some data
  size : ∀ {s h f i data}, v.stands (s, h) f i → v.contents s f = some data →
    v.Sizes f i data s (b.querySize s h)
  read : ∀ {s h f i data} (dst : Span), v.stands (s, h) f i → v.contents s f = some data →
    v.Reads f i data dst s (b.read s h dst)
  write : ∀ {s h f i data} (src : List UInt8), v.stands (s, h) f i → v.contents s f = some data →
    v.Writes f i data src s (b.write s h src)
  close : ∀ {s h f i}, v.stands (s, h) f i →
    v.sound (b.close s h).state ∧ v.contents (b.close s h).state = v.contents s

/-! ### Whole reads -/

/-- What is true after reading into `buf` from a file that holds `data`. -/
structure ReadThrough (b : Backend σ η) (v : View σ η ν) (f : ν) (data : List UInt8) (buf : Span)
    (s : σ) (r : ReadReply (σ × η)) : Prop where
  contents : v.contents r.state.1 = v.contents s
  stands : ∃ i, v.stands r.state f i
  /-- If it went well, `buf` is full or holds the whole file. -/
  full : ∀ n, r.result = .ok n → n = min buf.size data.length ∧
    (⟨buf.size, r.written⟩ : Span).Starts (data.take n)
  /-- If not, a call failed so, or no machine has such a `buf`. -/
  cause : ∀ e, r.result = .error e → Size.max < buf.size ∨
    ∃ s h i dst, v.stands (s, h) f i ∧ v.contents s f = some data ∧
      (b.read s h dst).result = .error e ∧ interrupted (b.read s h dst).result = false

/-- What a read loop relies on holds again after a call that it continues after. -/
theorem Honest.read_continues (hb : b.Honest v) {data : List UInt8} {buf : Span} {filled m : Nat}
    (hst : v.stands (s, h) f filled) (hc : v.contents s f = some data)
    (hle : filled ≤ data.length) (hbuf : buf.Starts (data.take filled)) (hlt : filled < buf.size)
    (hgo : Continues filled (b.read s h (buf.drop filled)).result m) :
    v.stands (b.read s h (buf.drop filled)).state f m ∧ m ≤ data.length ∧
      (buf.overlay filled ⟨buf.size - filled, (b.read s h (buf.drop filled)).written⟩).Starts
        (data.take m) := by
  have hlen : (data.take filled).length = filled := List.length_take_of_le hle
  have hcall := hb.read (buf.drop filled) hst hc
  cases hgo with
  | moved n ha hadd hm =>
    subst hm
    obtain ⟨hstands, hn, hdata, hwritten⟩ := hcall.moves (n + 1) ha
    rw [Span.size_drop] at hn hwritten
    have hboth := hbuf.append hwritten (by rw [hlen]; dsimp only; omega)
    rw [hlen, ← List.take_add] at hboth
    exact ⟨hstands, hdata, hboth⟩
  | again e ha hi hm =>
    subst hm
    exact ⟨hcall.fails _ ha, hle, hbuf.overlay (Nat.le_of_eq hlen) _⟩

theorem readFrom_spec (hb : b.Honest v) {data : List UInt8} {buf : Span} {filled : Nat}
    (hst : v.stands (s, h) f filled) (hc : v.contents s f = some data)
    (hle : filled ≤ data.length) (hbuf : buf.Starts (data.take filled)) :
    ReadThrough b v f data buf s (b.readFrom s h buf filled) := by
  induction s, h, buf, filled using readFrom_induction b with
  | full s h buf filled hge =>
    have hfits := hbuf.fits
    rw [List.length_take_of_le hle] at hfits
    refine ⟨rfl, ⟨_, hst⟩, fun n hn => ?_, fun e he => by cases he⟩
    obtain rfl : filled = n := Except.ok.inj hn
    exact ⟨by omega, hbuf⟩
  | halts s h buf filled r hlt hr =>
    have hcall := hb.read (buf.drop filled) hst hc
    cases hr with
    | stopped ha hr =>
      -- nothing was read, so this is the end of the file
      subst hr
      obtain ⟨hstands, -⟩ := hcall.moves 0 ha
      have hend : filled = data.length := by
        rcases hcall.ends ha with hz | hend
        · rw [Span.size_drop] at hz
          omega
        · exact hend
      refine ⟨hcall.contents, ⟨_, hstands⟩, fun n hn => ?_, fun e he => by cases he⟩
      obtain rfl : filled = n := Except.ok.inj hn
      exact ⟨by omega, hbuf.overlay (Nat.le_of_eq (List.length_take_of_le hle)) _⟩
    | overflow n ha hadd hr =>
      subst hr
      obtain ⟨hstands, hn, -⟩ := hcall.moves (n + 1) ha
      rw [Span.size_drop] at hn
      exact ⟨hcall.contents, ⟨_, hstands⟩, (fun n hn => by cases hn), fun e he => Or.inl (by omega)⟩
    | failed e ha hi hr =>
      subst hr
      refine ⟨hcall.contents, ⟨_, hcall.fails _ ha⟩, (fun n hn => by cases hn), fun e' he => Or.inr ?_⟩
      cases he
      exact ⟨s, h, filled, _, hst, hc, ha, hi⟩
  | continues s h buf filled m hlt hgo ih =>
    have hcall := hb.read (buf.drop filled) hst hc
    obtain ⟨hstands, hle', hnext⟩ := hb.read_continues hst hc hle hbuf hlt hgo
    have hrest := ih hstands (by rw [hcall.contents]; exact hc) hle' hnext
    exact ⟨hrest.contents.trans hcall.contents, hrest.stands, hrest.full, hrest.cause⟩

theorem readFull_spec (hb : b.Honest v) {data : List UInt8} (buf : Span)
    (hst : v.stands (s, h) f 0) (hc : v.contents s f = some data) :
    ReadThrough b v f data buf s (b.readFull s h buf) :=
  readFrom_spec hb hst hc (Nat.zero_le _) (Span.starts_nil _)

/-! ### Whole writes -/

/-- What is true after writing `data` to the empty file `f`. -/
structure WriteThrough (b : Backend σ η) (v : View σ η ν) (f : ν) (data : List UInt8) (s : σ)
    (r : IoReply (σ × η) Nat) : Prop where
  others : v.Elsewhere f s r.state.1
  stands : ∃ i, v.stands r.state f i
  /-- The file holds the first bytes of `data`, -/
  front : ∃ n, v.contents r.state.1 f = some (data.take n)
  /-- and all of them if it went well. -/
  full : ∀ n, r.result = .ok n → n = data.length ∧ v.contents r.state.1 f = some data
  /-- If not, a call failed so or took nothing, or no machine has such `data`. -/
  cause : ∀ e, r.result = .error e → Size.max < data.length ∨
    ∃ s h i src held, v.stands (s, h) f i ∧ v.contents s f = some held ∧ src ≠ [] ∧
      ((b.write s h src).result = .ok 0 ∨
        (b.write s h src).result = .error e ∧ interrupted (b.write s h src).result = false)

theorem take_write {data : List UInt8} {written : Nat} (hle : written ≤ data.length) (n : Nat) :
    (data.take written).take written ++ (data.drop written).take n ++
      (data.take written).drop (written + n) = data.take (written + n) := by
  have hout : (data.take written).drop (written + n) = [] := by
    rw [List.drop_eq_nil_iff, List.length_take]
    omega
  rw [List.take_take, Nat.min_self, hout, List.append_nil, ← List.take_add]

/-- What a write loop relies on holds again after a call that it continues after. -/
theorem Honest.write_continues (hb : b.Honest v) {data : List UInt8} {written m : Nat}
    (hst : v.stands (s, h) f written) (hc : v.contents s f = some (data.take written))
    (hle : written ≤ data.length)
    (hgo : Continues written (b.write s h (data.drop written)).result m) :
    v.stands (b.write s h (data.drop written)).state f m ∧
      v.contents (b.write s h (data.drop written)).state.1 f = some (data.take m) ∧
      m ≤ data.length := by
  have hcall := hb.write (data.drop written) hst hc
  cases hgo with
  | moved n ha hadd hm =>
    subst hm
    obtain ⟨hstands, hn, hheld⟩ := hcall.moves (n + 1) ha
    rw [take_write hle] at hheld
    rw [List.length_drop] at hn
    exact ⟨hstands, hheld, by omega⟩
  | again e ha hi hm =>
    subst hm
    obtain ⟨hstands, hheld⟩ := hcall.fails _ ha
    exact ⟨hstands, hheld, hle⟩

theorem writeFrom_spec (hb : b.Honest v) {data : List UInt8} {written : Nat}
    (hst : v.stands (s, h) f written) (hc : v.contents s f = some (data.take written))
    (hle : written ≤ data.length) : WriteThrough b v f data s (b.writeFrom s h data written) := by
  induction s, h, written using writeFrom_induction b data with
  | full s h written hge =>
    refine ⟨fun _ _ => rfl, ⟨_, hst⟩, ⟨_, hc⟩, fun n hn => ?_, fun e he => by cases he⟩
    obtain rfl : written = n := Except.ok.inj hn
    rw [List.take_of_length_le (by omega)] at hc
    exact ⟨by omega, hc⟩
  | halts s h written r hlt hr =>
    have hcall := hb.write (data.drop written) hst hc
    have hne : data.drop written ≠ [] := by
      rw [Ne, List.drop_eq_nil_iff]
      omega
    cases hr with
    | stopped ha hr =>
      subst hr
      obtain ⟨hstands, -, hheld⟩ := hcall.moves 0 ha
      rw [take_write hle] at hheld
      exact ⟨hcall.others, ⟨_, hstands⟩, ⟨_, hheld⟩, (fun n hn => by cases hn),
        fun e he => Or.inr ⟨s, h, written, _, _, hst, hc, hne, Or.inl ha⟩⟩
    | overflow n ha hadd hr =>
      subst hr
      obtain ⟨hstands, hn, hheld⟩ := hcall.moves (n + 1) ha
      rw [take_write hle] at hheld
      rw [List.length_drop] at hn
      exact ⟨hcall.others, ⟨_, hstands⟩, ⟨_, hheld⟩, (fun n hn => by cases hn),
        fun e he => Or.inl (by omega)⟩
    | failed e ha hi hr =>
      subst hr
      obtain ⟨hstands, hheld⟩ := hcall.fails _ ha
      refine ⟨hcall.others, ⟨_, hstands⟩, ⟨_, hheld⟩, (fun n hn => by cases hn), fun e' he => Or.inr ?_⟩
      cases he
      exact ⟨s, h, written, _, _, hst, hc, hne, Or.inr ⟨ha, hi⟩⟩
  | continues s h written m hlt hgo ih =>
    have hcall := hb.write (data.drop written) hst hc
    obtain ⟨hstands, hheld, hle'⟩ := hb.write_continues hst hc hle hgo
    have hrest := ih hstands hheld hle'
    exact ⟨fun g hg => (hrest.others g hg).trans (hcall.others g hg), hrest.stands, hrest.front,
      hrest.full, hrest.cause⟩

theorem writeFull_spec (hb : b.Honest v) (data : List UInt8) (hst : v.stands (s, h) f 0)
    (hc : v.contents s f = some []) : WriteThrough b v f data s (b.writeFull s h data) :=
  writeFrom_spec hb hst hc (Nat.zero_le _)

/-- If writing fails, some of `data` is missing at the end of the file. -/
theorem writeFrom_torn (hb : b.Honest v) {data : List UInt8} {written : Nat}
    (hst : v.stands (s, h) f written) (hc : v.contents s f = some (data.take written))
    (hle : written ≤ data.length) (hmax : data.length ≤ Size.max) {e : Fault IoError}
    (he : (b.writeFrom s h data written).result = .error e) :
    ∃ n < data.length, v.contents (b.writeFrom s h data written).state.1 f = some (data.take n) := by
  induction s, h, written using writeFrom_induction b data with
  | full => cases he
  | halts s h written r hlt hr =>
    have hcall := hb.write (data.drop written) hst hc
    cases hr with
    | stopped ha =>
      obtain ⟨-, -, hheld⟩ := hcall.moves 0 ha
      rw [take_write hle] at hheld
      exact ⟨written, hlt, hheld⟩
    | overflow n ha hadd =>
      obtain ⟨-, hn, -⟩ := hcall.moves (n + 1) ha
      rw [List.length_drop] at hn
      omega
    | failed e' ha => exact ⟨written, hlt, (hcall.fails _ ha).2⟩
  | continues s h written m hlt hgo ih =>
    obtain ⟨hstands, hheld, hle'⟩ := hb.write_continues hst hc hle hgo
    exact ih hstands hheld hle' he

theorem writeFull_of_error {data : List UInt8} {e : Fault IoError} (hne : data ≠ [])
    (he : (b.write s h data).result = .error e)
    (hi : interrupted (b.write s h data).result = false) :
    (b.writeFull s h data).result = .error e := by
  rw [← List.drop_zero (l := data)] at he hi
  unfold writeFull
  rw [writeFrom_of_halts (List.length_pos_iff.mpr hne) (.failed e he hi rfl)]

/-! ### Reliable files -/

/-- On the file `f` the backend only is slow: calls may be interrupted and move little, but each call
    is served in the end. -/
structure Reliable (b : Backend σ η) (v : View σ η ν) (f : ν) : Prop where
  takes : ∀ {s path}, v.sound s → v.file path = f → (∃ native, nativePath path = .ok native) →
    ∃ native, b.translate s path = .ok native
  openRead : ∀ {s path native data}, v.sound s → b.translate s path = .ok native →
    v.file path = f → v.contents s f = some data →
    ∃ h, (b.openFile s native .sharedRead).result = .ok h
  openWrite : ∀ {s path native}, v.sound s → b.translate s path = .ok native → v.file path = f →
    ∃ h, (b.openFile s native .createTruncate).result = .ok h
  size : ∀ {s h i}, v.stands (s, h) f i → ∃ n, (b.querySize s h).result = .ok n
  read : ∀ {s h i e} (dst : Span), v.stands (s, h) f i → (b.read s h dst).result = .error e →
    interrupted (b.read s h dst).result = true
  write : ∀ {s h i} (src : List UInt8), v.stands (s, h) f i → src ≠ [] →
    (b.write s h src).result ≠ .ok 0 ∧ ∀ e, (b.write s h src).result = .error e →
      interrupted (b.write s h src).result = true
  close : ∀ {s h i}, v.stands (s, h) f i → (b.close s h).result.crashed = false

theorem ReadThrough.ok (hr : b.Reliable v f) {data : List UInt8} {buf : Span}
    {r : ReadReply (σ × η)} (h : ReadThrough b v f data buf s r) (hmax : buf.size ≤ Size.max) :
    ∃ n, r.result = .ok n := by
  cases he : r.result with
  | ok n => exact ⟨n, rfl⟩
  | error e =>
    rcases h.cause e he with hbig | ⟨s', h', i, dst, hst, -, hcall, hint⟩
    · omega
    · rw [hr.read dst hst hcall] at hint
      cases hint

theorem WriteThrough.ok (hr : b.Reliable v f) {data : List UInt8} {r : IoReply (σ × η) Nat}
    (h : WriteThrough b v f data s r) (hmax : data.length ≤ Size.max) : ∃ n, r.result = .ok n := by
  cases he : r.result with
  | ok n => exact ⟨n, rfl⟩
  | error e =>
    rcases h.cause e he with hbig | ⟨s', h', i, src, held, hst, -, hne, hcall⟩
    · omega
    · obtain ⟨hsome, hfails⟩ := hr.write src hst hne
      rcases hcall with hnone | ⟨hcall, hint⟩
      · exact absurd hnone hsome
      · rw [hfails e hcall] at hint
        cases hint

end Backend

end FilePipeline
