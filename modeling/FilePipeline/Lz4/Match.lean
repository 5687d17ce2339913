import FilePipeline.Lz4.Sequence

/-! # Finding matches

`blockOf` cuts a payload into sequences. A table remembers, for each hash of the bytes at a position,
the latest position with that hash. The scan looks at a position, takes the remembered one as a
candidate, and accepts it only after comparing the bytes (`isCandidate`), so the table may hold
anything. The longer the scan goes without a match, the larger its steps. A match found is extended
backwards over literals not yet written and forwards up to the tail that always stays literal. -/

namespace FilePipeline.Lz4

/-- Payloads shorter than this are written as literals. -/
def minPayload : Nat := 13

/-- No match starts in this many bytes at the end. -/
def startMargin : Nat := 12

/-- No match reaches into this many bytes at the end. -/
def endMargin : Nat := 6

def slots : Nat := 4096

/-- From this size on, positions are hashed over eight bytes instead of four. -/
def longHashFrom : Nat := 65535

/-- The byte at a position; zero past the end. -/
def byteAt (src : Array UInt8) (p : Nat) : UInt8 := src.getD p 0

/-- The eight bytes at a position as one little-endian word. -/
def wordAt (src : Array UInt8) (p : Nat) : UInt64 :=
  let b (i : Nat) : UInt64 := (byteAt src (p + i)).toUInt64
  b 0 ||| (b 1 <<< 8) ||| (b 2 <<< 16) ||| (b 3 <<< 24) |||
    (b 4 <<< 32) ||| (b 5 <<< 40) ||| (b 6 <<< 48) ||| (b 7 <<< 56)

/-- The slot of a position: the top twelve bits of a multiplicative hash of the bytes there. -/
def slotOf (src : Array UInt8) (p : Nat) : Nat :=
  let w := wordAt src p
  if src.size < longHashFrom then
    ((w.toUInt32 * 2654435761) >>> 20).toNat
  else
    (((w <<< 24) * 889523592379) >>> 52).toNat

/-- The table of remembered positions. -/
abbrev Table := Array Nat

/-- A table in which every slot remembers position zero. -/
def Table.empty : Table := Array.replicate slots 0

def Table.lookup (t : Table) (slot : Nat) : Nat := t.getD slot 0

def Table.remember (t : Table) (slot p : Nat) : Table := t.setIfInBounds slot p

/-- Whether the position `c` starts a match for the position `cur`: it lies before it, within reach,
    and the same four bytes stand at both. -/
def isCandidate (src : Array UInt8) (c cur : Nat) : Bool :=
  c < cur && cur - c ≤ maxDistance &&
    byteAt src c == byteAt src cur && byteAt src (c + 1) == byteAt src (cur + 1) &&
    byteAt src (c + 2) == byteAt src (cur + 2) && byteAt src (c + 3) == byteAt src (cur + 3)

/-- A position, its match, and the table after the search that found them. -/
structure Found where
  cur : Nat
  source : Nat
  table : Table

/-- Searches from `cur` on; `misses` positions were looked at in vain since the last match. The step
    to the next position grows by one every 32 of them. -/
def search (src : Array UInt8) (table : Table) (cur misses : Nat) : Option Found :=
  if h : cur + startMargin ≤ src.size then
    let slot := slotOf src cur
    let c := table.lookup slot
    let table := table.remember slot cur
    if isCandidate src c cur then some ⟨cur, c, table⟩
    else search src table (cur + (1 + misses / 32)) (misses + 1)
  else none
termination_by src.size + 1 - cur
decreasing_by omega

/-- Where the equal bytes right before `cur` and `c` begin, on the side of `cur` and not before
    `start`. -/
def backward (src : Array UInt8) (start cur : Nat) : Nat → Nat
  | 0 => cur
  | c + 1 =>
    if start < cur ∧ byteAt src (cur - 1) = byteAt src c then backward src start (cur - 1) c
    else cur

/-- Where the equal bytes from `cur` and `c` on end, on the side of `cur` and not in the end
    margin. -/
def forward (src : Array UInt8) (cur c : Nat) : Nat :=
  if cur + endMargin < src.size ∧ byteAt src cur = byteAt src c then
    forward src (cur + 1) (c + 1)
  else cur
termination_by src.size - cur
decreasing_by omega

/-- The bytes from `start` up to `stop`. -/
def piece (src : Array UInt8) (start stop : Nat) : List UInt8 := (src.extract start stop).toList

/-- The sequence for a match found, with the literals from `start` on, and the position after it. -/
def sequenceAt (src : Array UInt8) (start : Nat) (f : Found) : Sequence × Nat :=
  let first := backward src start f.cur f.source
  let stop := forward src (f.cur + minMatch) (f.source + minMatch)
  (⟨piece src start first, f.cur - f.source, stop - first⟩, stop)

theorem search_bounds {src : Array UInt8} {table : Table} {cur misses : Nat} {f : Found}
    (h : search src table cur misses = some f) :
    cur ≤ f.cur ∧ f.cur + startMargin ≤ src.size := by
  fun_induction search src table cur misses with
  | case1 table cur misses hle slot c table' hc =>
    simp only [Option.some.injEq] at h
    subst h
    exact ⟨Nat.le_refl _, hle⟩
  | case2 table cur misses hle slot c table' hc ih =>
    have := ih h
    omega
  | case3 => simp at h

theorem le_forward (src : Array UInt8) (cur c : Nat) : cur ≤ forward src cur c := by
  fun_induction forward src cur c with
  | case1 cur c h ih => omega
  | case2 => exact Nat.le_refl _

/-- Goes on with the sequences `done`, which cover the payload up to `start`, and a search that goes
    on at `cur`. -/
def blockFrom (src : Array UInt8) (table : Table) (start cur : Nat) (done : Array Sequence) :
    Block :=
  match h : search src table cur 0 with
  | none => ⟨done.toList, piece src start src.size⟩
  | some f =>
    let next := sequenceAt src start f
    let table := f.table.remember (slotOf src (next.2 - 2)) (next.2 - 2)
    blockFrom src table next.2 next.2 (done.push next.1)
termination_by src.size - cur
decreasing_by
  have hs := search_bounds h
  have hf : f.cur + minMatch ≤ (sequenceAt src start f).2 := le_forward src _ _
  simp only [startMargin, minMatch] at *
  omega

/-- The block a payload is written as. -/
def blockOf (src : Array UInt8) : Block :=
  if src.size < minPayload then ⟨[], src.toList⟩
  else blockFrom src (Table.empty.remember (slotOf src 0) 0) 0 1 #[]

end FilePipeline.Lz4
