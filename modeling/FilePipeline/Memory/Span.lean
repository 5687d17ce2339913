/-! # Spans of memory

A span is a run of bytes with a size. Its bytes are given by a function, so that a block of any size
has contents without being written out; past the size the function says nothing. `ofList` and
`toList` relate spans to lists, `overlay` is what writing into a part of a span does. -/

namespace FilePipeline

/-- A run of `size` bytes. -/
structure Span where
  size : Nat
  byte : Nat → UInt8

instance : Inhabited Span := ⟨⟨0, fun _ => 0⟩⟩

namespace Span

def zeros (n : Nat) : Span := ⟨n, fun _ => 0⟩

/-- A span that holds one byte everywhere. -/
def filled (n : Nat) (b : UInt8) : Span := ⟨n, fun _ => b⟩

def ofArray (bs : Array UInt8) : Span := ⟨bs.size, fun i => bs.getD i 0⟩

def ofList (bs : List UInt8) : Span := ofArray bs.toArray

def toList (s : Span) : List UInt8 := (List.range s.size).map s.byte

/-- The first `n` bytes, or all if there are fewer. -/
def take (s : Span) (n : Nat) : Span := ⟨min n s.size, s.byte⟩

/-- The bytes from offset `n` on. -/
def drop (s : Span) (n : Nat) : Span := ⟨s.size - n, fun i => s.byte (n + i)⟩

/-- The span `s` after `t` was written at offset `offset`; what does not fit is left out. -/
def overlay (s : Span) (offset : Nat) (t : Span) : Span :=
  ⟨s.size, fun i => if offset ≤ i ∧ i < offset + t.size then t.byte (i - offset) else s.byte i⟩

/-- The span `s` after the byte at offset `i` was set. -/
def set (s : Span) (i : Nat) (b : UInt8) : Span :=
  ⟨s.size, fun j => if j = i then b else s.byte j⟩

@[simp] theorem size_overlay (s : Span) (n : Nat) (t : Span) : (s.overlay n t).size = s.size := rfl

@[simp] theorem size_set (s : Span) (i : Nat) (b : UInt8) : (s.set i b).size = s.size := rfl

@[simp] theorem size_take (s : Span) (n : Nat) : (s.take n).size = min n s.size := rfl

@[simp] theorem size_drop (s : Span) (n : Nat) : (s.drop n).size = s.size - n := rfl

@[simp] theorem size_zeros (n : Nat) : (zeros n).size = n := rfl

@[simp] theorem length_toList (s : Span) : s.toList.length = s.size := by simp [toList]

@[simp] theorem size_ofList (bs : List UInt8) : (ofList bs).size = bs.length := by
  simp [ofList, ofArray]

theorem getElem?_toList (s : Span) (i : Nat) :
    s.toList[i]? = if i < s.size then some (s.byte i) else none := by
  by_cases h : i < s.size
  · simp [toList, h]
  · simp [toList, h]

@[simp] theorem toList_ofList (bs : List UInt8) : (ofList bs).toList = bs := by
  apply List.ext_getElem?
  intro i
  rw [getElem?_toList]
  by_cases h : i < bs.length
  · simp [ofList, ofArray, h]
  · simp [h]

@[simp] theorem toList_zeros (n : Nat) : (zeros n).toList = List.replicate n 0 := by
  simp [toList, zeros, List.map_const']

end Span

end FilePipeline
