import FilePipeline.Proofs.Backend.Observed
import FilePipeline.Proofs.Backend.Stretched
import Mathlib.Algebra.GroupWithZero.Nat

/-! # Whole transfers over honest scripts

An honest script moves as many bytes as it says, or fails. A whole read or write over it moves bytes with
one call after the other, each where the last one left off, until all is moved, a call moves none or a call
fails for good (`Ends`). What it has moved by then are the next bytes of the file, which lie in the buffer
(`ReadCalls`), or the first bytes of the data, which lie behind what the file held (`WriteCalls`). How the
bytes were cut into calls, and how often the calls were interrupted, is not to be seen in either
(`transfers_transparent`). -/

namespace FilePipeline.Backend.Scripted

variable {s s' : Store} {h : Handle} {data : List UInt8}

/-! ### How a transfer ends -/

/-- A move that is no lie and no crash. -/
def Move.Honest : Move → Prop
  | .atMost _ | .fail _ => True
  | .lie _ | .crash => False

/-- What a call that moves bytes has answered. -/
def Call.result (c : Call) : Attempt IoError Nat := Attempt.ofExcept (c.answer.map fun n => n.getD 0)

def Call.moved (c : Call) : Nat :=
  match c.result with
  | .ok n => n
  | .error _ => 0

def movedBy (cs : List Call) : Nat := (cs.map Call.moved).sum

/-- How a transfer with room for `room` bytes has ended, which has made the calls `cs`, the last one first:
    with `full` if they have moved all of it, and with `stopped k` if a call has moved none after `k`
    bytes. -/
inductive Ends (room : Nat) (full : Attempt IoError Nat) (stopped : Nat → Attempt IoError Nat) :
    List Call → Attempt IoError Nat → Prop
  | full {cs : List Call} (hgo : ∀ c ∈ cs, goesOn c.result = true) (hall : movedBy cs = room) :
      Ends room full stopped cs full
  | stopped {c : Call} {cs : List Call} (hgo : ∀ c ∈ cs, goesOn c.result = true)
      (hmore : movedBy cs < room) (hc : c.result = .ok 0) :
      Ends room full stopped (c :: cs) (stopped (movedBy cs))
  | failed {c : Call} {cs : List Call} {e : IoError} (hgo : ∀ c ∈ cs, goesOn c.result = true)
      (hmore : movedBy cs < room) (hc : c.result = Attempt.fail e) (he : e.isInterrupted = false) :
      Ends room full stopped (c :: cs) (Attempt.fail e)

theorem Call.moved_of_ok {c : Call} {n : Nat} (hc : c.result = .ok n) : c.moved = n := by
  unfold moved
  rw [hc]

theorem Call.moved_of_error {c : Call} {f : Fault IoError} (hc : c.result = .error f) :
    c.moved = 0 := by
  unfold moved
  rw [hc]

/-- A call that is logged has not crashed. -/
theorem Call.exists_of_result_eq_error (c : Call) {f : Fault IoError} (hc : c.result = .error f) :
    ∃ e, f = .error e := by
  unfold result at hc
  cases ha : c.answer with
  | ok =>
    rw [ha] at hc
    cases hc
  | error e =>
    rw [ha] at hc
    exact ⟨e, (Except.error.inj hc).symm⟩

theorem Call.eq_of_continues {c : Call} {k m : Nat} (hgo : Continues k c.result m) :
    m = k + c.moved := by
  cases hgo with
  | moved n hc _ hm => rw [hm, Call.moved_of_ok hc]
  | again f hc _ hm => rw [hm, Call.moved_of_error hc, Nat.add_zero]

theorem movedBy_append (cs cs' : List Call) : movedBy (cs ++ cs') = movedBy cs + movedBy cs' := by
  unfold movedBy
  rw [List.map_append, List.sum_append]

theorem movedBy_concat (cs : List Call) (c : Call) : movedBy (cs ++ [c]) = c.moved + movedBy cs := by
  rw [movedBy_append, Nat.add_comm]
  rfl

/-- One call more, before those that the transfer has ended with. -/
theorem Ends.before {room : Nat} {full : Attempt IoError Nat} {stopped : Nat → Attempt IoError Nat}
    {cs : List Call} {c : Call} {r : Attempt IoError Nat}
    (h : Ends (room - c.moved) full (fun k => stopped (c.moved + k)) cs r)
    (hc : goesOn c.result = true) (hroom : c.moved ≤ room) : Ends room full stopped (cs ++ [c]) r := by
  have hgo : ∀ {cs : List Call}, (∀ x ∈ cs, goesOn x.result = true) →
      ∀ x ∈ cs ++ [c], goesOn x.result = true := by
    intro cs hcs x hx
    rcases List.mem_append.mp hx with hx | hx
    · exact hcs x hx
    · rw [List.mem_singleton.mp hx]
      exact hc
  cases h with
  | full hcs hall => exact .full (hgo hcs) (by rw [movedBy_concat]; omega)
  | @stopped c' cs hcs hmore hzero =>
    have hend : Ends room full stopped (c' :: (cs ++ [c])) (stopped (movedBy (cs ++ [c]))) :=
      .stopped (hgo hcs) (by rw [movedBy_concat]; omega) hzero
    rw [movedBy_concat] at hend
    exact hend
  | @failed c' cs e hcs hmore hfail he =>
    have hmore' : movedBy (cs ++ [c]) < room := by
      rw [movedBy_concat]
      omega
    exact .failed (hgo hcs) hmore' hfail he

/-! ### Reads -/

/-- What a handle has ahead of it. -/
def Store.ahead (s : Store) (h : Handle) : List UInt8 := (s.contents h.path).drop h.position

/-- One read through a handle, which has played the moves `ms` and was logged as `c`. -/
structure ReadCall (s : Store) (h : Handle) (dst : Span) (ms : List Move) (c : Call)
    (r : ReadReply (Store × Handle)) : Prop where
  script : (s.faults h.path).reads = ms ++ (r.state.1.faults h.path).reads
  files : r.state.1.files = s.files
  calls : r.state.1.calls = c :: s.calls
  handle : r.state.2 = { h with position := h.position + c.moved }
  result : r.result = c.result
  room : c.moved ≤ dst.size
  left : c.moved ≤ (s.ahead h).length
  written : r.written = (dst.overlay 0 (Span.ofList ((s.ahead h).take c.moved))).byte
  /-- If the moves are slow at most, bytes are moved while there are any. -/
  served : (∀ m ∈ ms, m.Slow) →
    goesOn c.result = true ∨ c.result = .ok 0 ∧ (dst.size = 0 ∨ s.ahead h = [])

/-- The next read moves bytes. The store `s₁` is `s` after the moves `ms` were taken from its script. -/
theorem readCall_readSome {s₁ : Store} {ms : List Move} (hfiles : s₁.files = s.files)
    (hcalls : s₁.calls = s.calls)
    (hscript : (s.faults h.path).reads = ms ++ (s₁.faults h.path).reads) (dst : Span) {n : Nat}
    (hn : (∀ m ∈ ms, m.Slow) → 0 < n ∨ dst.size = 0) :
    ∃ c, ReadCall s h dst ms c (readSome s₁ h dst n) := by
  let bytes := (s.ahead h).take (min n dst.size)
  have hlen : bytes.length = min (min n dst.size) (s.ahead h).length := List.length_take
  have htake : (s.ahead h).take bytes.length = bytes :=
    (List.prefix_iff_eq_take.mp (List.take_prefix _ _)).symm
  unfold readSome
  rw [contents_congr hfiles]
  refine ⟨⟨.read dst.size, h.path, .ok (some bytes.length)⟩, hscript, hfiles,
    congrArg (_ :: ·) hcalls, rfl, rfl, ?_, ?_, ?_, fun hslow => ?_⟩
  · show bytes.length ≤ dst.size
    omega
  · show bytes.length ≤ (s.ahead h).length
    omega
  · show _ = (dst.overlay 0 (Span.ofList ((s.ahead h).take bytes.length))).byte
    rw [htake]
    rfl
  · show goesOn (.ok bytes.length) = true ∨ Except.ok bytes.length = .ok 0 ∧ _
    rcases Nat.eq_zero_or_pos bytes.length with hz | hpos
    · refine Or.inr ⟨by rw [hz], ?_⟩
      rw [← List.length_eq_zero_iff]
      have := hn hslow
      omega
    · exact Or.inl (decide_eq_true hpos)

theorem readCall_read (hh : ∀ m ∈ (s.faults h.path).reads, m.Honest) (dst : Span) :
    ∃ ms c, ReadCall s h dst ms c (read s h dst) := by
  cases hr : (s.faults h.path).reads with
  | nil =>
    have hcall : ∃ c, ReadCall s h dst [] c (readSome s h dst dst.size) :=
      readCall_readSome rfl rfl rfl dst fun _ => by omega
    rw [read_nil hr]
    exact ⟨[], hcall⟩
  | cons m rest =>
    have hscript : (s.faults h.path).reads = [m] ++ ((s.withReads h.path rest).faults h.path).reads := by
      rw [hr, faults_withReads, List.singleton_append]
    have hm := hh m (by rw [hr]; exact List.mem_cons_self)
    rw [read_cons hr]
    cases m with
    | atMost n =>
      have hn : (∀ m ∈ [Move.atMost n], m.Slow) → 0 < n ∨ dst.size = 0 :=
        fun hslow => Or.inl (hslow _ List.mem_cons_self)
      have hfiles : (s.withReads h.path rest).files = s.files := rfl
      exact ⟨[.atMost n], readCall_readSome hfiles rfl hscript dst hn⟩
    | fail e =>
      refine ⟨[.fail e], ⟨.read dst.size, h.path, .error e⟩, hscript, rfl, rfl, rfl, rfl,
        Nat.zero_le _, Nat.zero_le _, ?_, fun hslow => Or.inl (hslow (.fail e) List.mem_cons_self)⟩
      show dst.byte = (dst.overlay 0 (Span.ofList [])).byte
      rw [Span.overlay_nil]
    | lie | crash => exact hm.elim

/-- What is left of a whole read through a handle, after `filled` bytes. It has played the moves `ms` and
    made the calls `cs`, the last one first. -/
structure ReadCalls (s : Store) (h : Handle) (buf : Span) (filled : Nat) (ms : List Move)
    (cs : List Call) (r : ReadReply (Store × Handle)) : Prop where
  script : (s.faults h.path).reads = ms ++ (r.state.1.faults h.path).reads
  files : r.state.1.files = s.files
  calls : r.state.1.calls = cs ++ s.calls
  handle : r.state.2 = { h with position := h.position + movedBy cs }
  room : filled + movedBy cs ≤ buf.size
  left : movedBy cs ≤ (s.ahead h).length
  written : r.written = (buf.overlay filled (Span.ofList ((s.ahead h).take (movedBy cs)))).byte
  ends : Ends (buf.size - filled) (.ok buf.size) (fun k => .ok (filled + k)) cs r.result
  /-- If the moves are slow at most, the buffer is full, or the file is at its end. -/
  served : (∀ m ∈ ms, m.Slow) → r.result = .ok (min buf.size (filled + (s.ahead h).length))

theorem ReadCall.ahead {dst : Span} {ms : List Move} {c : Call} {r : ReadReply (Store × Handle)}
    (hr : ReadCall s h dst ms c r) : r.state.1.ahead r.state.2 = (s.ahead h).drop c.moved := by
  unfold Store.ahead
  rw [hr.handle, contents_congr hr.files, List.drop_drop]

theorem ReadCall.mem_script {dst : Span} {ms : List Move} {c : Call}
    {r : ReadReply (Store × Handle)} (hr : ReadCall s h dst ms c r) {m : Move}
    (hm : m ∈ (r.state.1.faults r.state.2.path).reads) : m ∈ (s.faults h.path).reads := by
  rw [hr.handle] at hm
  rw [hr.script]
  exact List.mem_append_right _ hm

theorem ReadCalls.before {buf : Span} {filled : Nat} {ms ms' : List Move} {c : Call} {cs : List Call}
    {r r' : ReadReply (Store × Handle)} (hr : ReadCall s h (buf.drop filled) ms c r)
    (hgo : goesOn c.result = true)
    (hr' : ReadCalls r.state.1 r.state.2 (buf.overlay filled ⟨buf.size - filled, r.written⟩)
      (filled + c.moved) ms' cs r') : ReadCalls s h buf filled (ms ++ ms') (cs ++ [c]) r' := by
  have hpath : r.state.2.path = h.path := by rw [hr.handle]
  have hahead := hr.ahead
  have hroom := hr.room
  have hroom' := hr'.room
  have hleft := hr.left
  have hleft' := hr'.left
  rw [Span.size_drop] at hroom
  rw [Span.size_overlay] at hroom'
  rw [hahead, List.length_drop] at hleft'
  refine ⟨?_, hr'.files.trans hr.files, ?_, ?_, ?_, ?_, ?_, ?_, fun hslow => ?_⟩
  · have hscript := hr'.script
    rw [hpath] at hscript
    rw [hr.script, hscript, List.append_assoc]
  · rw [hr'.calls, hr.calls, List.append_assoc, List.singleton_append]
  · rw [hr'.handle, hr.handle, movedBy_concat, Nat.add_assoc]
  · rw [movedBy_concat]
    omega
  · rw [movedBy_concat]
    omega
  · -- what was read lies behind what was read before
    have hlen : ((s.ahead h).take c.moved).length = c.moved := by
      rw [List.length_take, Nat.min_eq_left hleft]
    have hnext : buf.overlay filled ⟨buf.size - filled, r.written⟩ =
        buf.overlay filled (Span.ofList ((s.ahead h).take c.moved)) := by
      rw [hr.written]
      exact Span.overlay_drop_overlay (by rw [Span.size_ofList, hlen]; omega)
    have hboth := Span.overlay_append buf filled ((s.ahead h).take c.moved)
      (((s.ahead h).drop c.moved).take (movedBy cs))
    rw [hlen, ← List.take_add] at hboth
    rw [hr'.written, hnext, hahead, hboth, movedBy_concat]
  · refine Ends.before ?_ hgo hroom
    have hends := hr'.ends
    rw [Span.size_overlay] at hends
    simpa only [Nat.sub_sub, Nat.add_assoc] using hends
  · have hend := hr'.served fun m hm => hslow m (List.mem_append_right _ hm)
    rw [Span.size_overlay, hahead, List.length_drop] at hend
    rw [hend]
    congr 2
    omega

/-- The call that a whole read ends with, which has moved nothing. -/
theorem ReadCalls.last {buf : Span} {filled : Nat} {ms : List Move} {c : Call}
    {r : ReadReply (Store × Handle)} {result : Attempt IoError Nat} (hlt : filled < buf.size)
    (hr : ReadCall s h (buf.drop filled) ms c r) (hstop : goesOn c.result = false)
    (hzero : c.moved = 0)
    (hends : Ends (buf.size - filled) (.ok buf.size) (fun k => .ok (filled + k)) [c] result)
    (hresult : c.result = .ok 0 → result = .ok filled) :
    ReadCalls s h buf filled ms [c]
      ⟨⟨result, r.state⟩, (buf.overlay filled ⟨buf.size - filled, r.written⟩).byte⟩ := by
  have hmoved : movedBy [c] = 0 := hzero
  have hhandle := hr.handle
  have hwritten := hr.written
  rw [hzero, List.take_zero] at hwritten
  refine ⟨hr.script, hr.files, hr.calls, ?_, ?_, ?_, ?_, hends, fun hslow => ?_⟩
  · rw [hmoved, ← hzero]
    exact hhandle
  · rw [hmoved]
    exact Nat.le_of_lt hlt
  · rw [hmoved]
    exact Nat.zero_le _
  · rw [hmoved, List.take_zero, hwritten, Span.overlay_nil, Span.overlay_nil]
    exact congrArg Span.byte (Span.overlay_drop_self (.refl _))
  · rcases hr.served hslow with hgo | ⟨hc, hempty | hend⟩
    · rw [hstop] at hgo
      cases hgo
    · rw [Span.size_drop] at hempty
      omega
    · rw [hresult hc, hend, List.length_nil, Nat.add_zero, Nat.min_eq_right (Nat.le_of_lt hlt)]

theorem readCalls_readFrom {buf : Span} {filled : Nat} (hfit : filled ≤ buf.size)
    (hmax : buf.size ≤ Size.max) (hh : ∀ m ∈ (s.faults h.path).reads, m.Honest) :
    ∃ ms cs, ReadCalls s h buf filled ms cs (backend.readFrom s h buf filled) := by
  induction s, h, buf, filled using readFrom_induction backend with
  | full s h buf filled hge =>
    obtain rfl : filled = buf.size := by omega
    refine ⟨[], [], rfl, rfl, rfl, rfl, Nat.le_refl _, Nat.zero_le _, ?_, ?_, fun _ => ?_⟩
    · show buf.byte = (buf.overlay buf.size (Span.ofList [])).byte
      rw [Span.overlay_nil]
    · exact .full (fun _ h => absurd h List.not_mem_nil) (Nat.sub_self _).symm
    · show Except.ok buf.size = Except.ok _
      rw [Nat.min_eq_left (Nat.le_add_right _ _)]
  | halts s h buf filled r hlt hr =>
    obtain ⟨ms, c, hcall⟩ := readCall_read hh (buf.drop filled)
    have hr : Halts (.ok filled) filled c.result r := by
      rw [← hcall.result]
      exact hr
    cases hr with
    | stopped hc hr =>
      subst hr
      exact ⟨ms, [c], .last hlt hcall (by rw [hc]; rfl) (Call.moved_of_ok hc)
        (.stopped (fun _ h => absurd h List.not_mem_nil) (Nat.sub_pos_of_lt hlt) hc) fun _ => rfl⟩
    | overflow n hc hadd =>
      have hroom := hcall.room
      rw [Call.moved_of_ok hc, Span.size_drop] at hroom
      omega
    | failed f hc hi hr =>
      obtain ⟨e, rfl⟩ := c.exists_of_result_eq_error hc
      subst hr
      rw [hc] at hi
      exact ⟨ms, [c], .last hlt hcall (by rw [hc]; exact hi) (Call.moved_of_error hc)
        (.failed (fun _ h => absurd h List.not_mem_nil) (Nat.sub_pos_of_lt hlt) hc hi)
        fun hzero => by rw [hc] at hzero; cases hzero⟩
  | continues s h buf filled m hlt hgo ih =>
    obtain ⟨ms, c, hcall⟩ := readCall_read hh (buf.drop filled)
    have hgo : Continues filled c.result m := by
      rw [← hcall.result]
      exact hgo
    have hroom := hcall.room
    rw [Span.size_drop] at hroom
    obtain rfl := Call.eq_of_continues hgo
    obtain ⟨ms', cs, hrest⟩ := ih (by rw [Span.size_overlay]; omega) (by rwa [Span.size_overlay])
      fun m hm => hh m (hcall.mem_script hm)
    exact ⟨ms ++ ms', cs ++ [c], .before hcall hgo.goesOn hrest⟩

/-! ### Writes -/

/-- A handle that stands at the end of its file. -/
def Store.AtEnd (s : Store) (h : Handle) : Prop := h.position = (s.contents h.path).length

/-- One write through a handle, which has played the moves `ms` and was logged as `c`. -/
structure WriteCall (s : Store) (h : Handle) (src : List UInt8) (ms : List Move) (c : Call)
    (r : IoReply (Store × Handle) Nat) : Prop where
  script : (s.faults h.path).writes = ms ++ (r.state.1.faults h.path).writes
  others : ∀ path, path ≠ h.path → r.state.1.files path = s.files path
  calls : r.state.1.calls = c :: s.calls
  handle : r.state.2 = { h with position := h.position + c.moved }
  result : r.result = c.result
  room : c.moved ≤ src.length
  contents : r.state.1.contents h.path = s.contents h.path ++ src.take c.moved
  served : (∀ m ∈ ms, m.Slow) → goesOn c.result = true ∨ src = []

/-- The next write moves bytes. The store `s₁` is `s` after the moves `ms` were taken from its
    script. -/
theorem writeCall_writeSome {s₁ : Store} {ms : List Move} (hfiles : s₁.files = s.files)
    (hcalls : s₁.calls = s.calls)
    (hscript : (s.faults h.path).writes = ms ++ (s₁.faults h.path).writes) (hend : s.AtEnd h)
    (src : List UInt8) {n : Nat} (hn : (∀ m ∈ ms, m.Slow) → 0 < n ∨ src = []) :
    ∃ c, WriteCall s h src ms c (writeSome s₁ h src n) := by
  let bytes := src.take n
  have hlen : bytes.length = min n src.length := List.length_take
  have htake : src.take bytes.length = bytes :=
    (List.prefix_iff_eq_take.mp (List.take_prefix _ _)).symm
  unfold writeSome
  rw [contents_congr hfiles]
  refine ⟨⟨.write src.length, h.path, .ok (some bytes.length)⟩, hscript, fun path hne => ?_,
    congrArg (_ :: ·) hcalls, rfl, rfl, ?_, ?_, fun hslow => ?_⟩
  · show (if path = h.path then _ else s₁.files path) = s.files path
    rw [if_neg hne, hfiles]
  · show bytes.length ≤ src.length
    omega
  · show ((if h.path = h.path then some _ else _ : Option (List UInt8)).getD []) =
      s.contents h.path ++ src.take bytes.length
    rw [if_pos rfl, Option.getD_some, show h.position = _ from hend, List.take_length,
      List.drop_eq_nil_of_le (Nat.le_add_right _ _), List.append_nil, htake]
  · show goesOn (.ok bytes.length) = true ∨ src = []
    rcases hn hslow with hpos | hnil
    · rcases Nat.eq_zero_or_pos src.length with hz | hsrc
      · exact Or.inr (List.eq_nil_of_length_eq_zero hz)
      · exact Or.inl (decide_eq_true (by omega))
    · exact Or.inr hnil

theorem writeCall_write (hh : ∀ m ∈ (s.faults h.path).writes, m.Honest) (hend : s.AtEnd h)
    (src : List UInt8) : ∃ ms c, WriteCall s h src ms c (write s h src) := by
  cases hw : (s.faults h.path).writes with
  | nil =>
    have hn : src.length = 0 → src = [] := List.eq_nil_of_length_eq_zero
    have hcall : ∃ c, WriteCall s h src [] c (writeSome s h src src.length) :=
      writeCall_writeSome rfl rfl rfl hend src fun _ => (Nat.eq_zero_or_pos _).symm.imp_right hn
    rw [write_nil hw]
    exact ⟨[], hcall⟩
  | cons m rest =>
    have hscript :
        (s.faults h.path).writes = [m] ++ ((s.withWrites h.path rest).faults h.path).writes := by
      rw [hw, faults_withWrites, List.singleton_append]
    have hm := hh m (by rw [hw]; exact List.mem_cons_self)
    rw [write_cons hw]
    cases m with
    | atMost n =>
      have hn : (∀ m ∈ [Move.atMost n], m.Slow) → 0 < n ∨ src = [] :=
        fun hslow => Or.inl (hslow _ List.mem_cons_self)
      have hfiles : (s.withWrites h.path rest).files = s.files := rfl
      exact ⟨[.atMost n], writeCall_writeSome hfiles rfl hscript hend src hn⟩
    | fail e =>
      exact ⟨[.fail e], ⟨.write src.length, h.path, .error e⟩, hscript, fun _ _ => rfl, rfl, rfl, rfl,
        Nat.zero_le _, (List.append_nil _).symm,
        fun hslow => Or.inl (hslow (.fail e) List.mem_cons_self)⟩
    | lie | crash => exact hm.elim

/-- What is left of a whole write through a handle, after `written` bytes. It has played the moves `ms`
    and made the calls `cs`, the last one first. -/
structure WriteCalls (s : Store) (h : Handle) (data : List UInt8) (written : Nat) (ms : List Move)
    (cs : List Call) (r : IoReply (Store × Handle) Nat) : Prop where
  script : (s.faults h.path).writes = ms ++ (r.state.1.faults h.path).writes
  others : ∀ path, path ≠ h.path → r.state.1.files path = s.files path
  calls : r.state.1.calls = cs ++ s.calls
  handle : r.state.2 = { h with position := h.position + movedBy cs }
  room : written + movedBy cs ≤ data.length
  contents : r.state.1.contents h.path = s.contents h.path ++ (data.drop written).take (movedBy cs)
  ends : Ends (data.length - written) (.ok data.length) (fun _ => Attempt.fail .acceptedNothing) cs
    r.result
  served : (∀ m ∈ ms, m.Slow) → r.result = .ok data.length

theorem WriteCall.mem_script {src : List UInt8} {ms : List Move} {c : Call}
    {r : IoReply (Store × Handle) Nat} (hr : WriteCall s h src ms c r) {m : Move}
    (hm : m ∈ (r.state.1.faults r.state.2.path).writes) : m ∈ (s.faults h.path).writes := by
  rw [hr.handle] at hm
  rw [hr.script]
  exact List.mem_append_right _ hm

theorem WriteCall.atEnd {src : List UInt8} {ms : List Move} {c : Call}
    {r : IoReply (Store × Handle) Nat} (hr : WriteCall s h src ms c r) (hend : s.AtEnd h) :
    r.state.1.AtEnd r.state.2 := by
  have hend : h.position = (s.contents h.path).length := hend
  unfold Store.AtEnd
  rw [hr.handle]
  show h.position + c.moved = (r.state.1.contents h.path).length
  rw [hr.contents, List.length_append, List.length_take, Nat.min_eq_left hr.room, hend]

theorem WriteCalls.before {written : Nat} {ms ms' : List Move} {c : Call} {cs : List Call}
    {r r' : IoReply (Store × Handle) Nat} (hr : WriteCall s h (data.drop written) ms c r)
    (hgo : goesOn c.result = true)
    (hr' : WriteCalls r.state.1 r.state.2 data (written + c.moved) ms' cs r') :
    WriteCalls s h data written (ms ++ ms') (cs ++ [c]) r' := by
  have hpath : r.state.2.path = h.path := by rw [hr.handle]
  have hroom := hr.room
  have hroom' := hr'.room
  rw [List.length_drop] at hroom
  refine ⟨?_, fun path hne => ?_, ?_, ?_, ?_, ?_, ?_, fun hslow => ?_⟩
  · have hscript := hr'.script
    rw [hpath] at hscript
    rw [hr.script, hscript, List.append_assoc]
  · rw [hr'.others path (by rw [hpath]; exact hne), hr.others path hne]
  · rw [hr'.calls, hr.calls, List.append_assoc, List.singleton_append]
  · rw [hr'.handle, hr.handle, movedBy_concat, Nat.add_assoc]
  · rw [movedBy_concat]
    omega
  · have hcontents := hr'.contents
    rw [hpath] at hcontents
    rw [hcontents, hr.contents, List.append_assoc, movedBy_concat, List.take_add, List.drop_drop]
  · refine Ends.before ?_ hgo hroom
    have hends := hr'.ends
    rwa [← Nat.sub_sub] at hends
  · exact hr'.served fun m hm => hslow m (List.mem_append_right _ hm)

/-- The call that a whole write ends with, which has moved nothing. -/
theorem WriteCalls.last {written : Nat} {ms : List Move} {c : Call} {r : IoReply (Store × Handle) Nat}
    {result : Attempt IoError Nat} (hlt : written < data.length)
    (hr : WriteCall s h (data.drop written) ms c r) (hstop : goesOn c.result = false)
    (hzero : c.moved = 0)
    (hends : Ends (data.length - written) (.ok data.length) (fun _ => Attempt.fail .acceptedNothing) [c]
      result) :
    WriteCalls s h data written ms [c] ⟨result, r.state⟩ := by
  have hmoved : movedBy [c] = 0 := hzero
  have hhandle := hr.handle
  have hcontents := hr.contents
  rw [hzero] at hcontents
  refine ⟨hr.script, hr.others, hr.calls, ?_, ?_, ?_, hends, fun hslow => ?_⟩
  · rw [hmoved, ← hzero]
    exact hhandle
  · rw [hmoved]
    exact Nat.le_of_lt hlt
  · rw [hmoved]
    exact hcontents
  · rcases hr.served hslow with hgo | hnil
    · rw [hstop] at hgo
      cases hgo
    · rw [List.drop_eq_nil_iff] at hnil
      omega

theorem writeCalls_writeFrom {written : Nat} (hfit : written ≤ data.length)
    (hmax : data.length ≤ Size.max) (hh : ∀ m ∈ (s.faults h.path).writes, m.Honest)
    (hend : s.AtEnd h) :
    ∃ ms cs, WriteCalls s h data written ms cs (backend.writeFrom s h data written) := by
  induction s, h, written using writeFrom_induction backend data with
  | full s h written hge =>
    obtain rfl : written = data.length := by omega
    refine ⟨[], [], rfl, fun _ _ => rfl, rfl, rfl, Nat.le_refl _, ?_, ?_, fun _ => rfl⟩
    · exact (List.append_nil _).symm
    · exact .full (fun _ h => absurd h List.not_mem_nil) (Nat.sub_self _).symm
  | halts s h written r hlt hr =>
    obtain ⟨ms, c, hcall⟩ := writeCall_write hh hend (data.drop written)
    have hr : Halts (Attempt.fail .acceptedNothing) written c.result r := by
      rw [← hcall.result]
      exact hr
    cases hr with
    | stopped hc hr =>
      subst hr
      exact ⟨ms, [c], .last hlt hcall (by rw [hc]; rfl) (Call.moved_of_ok hc)
        (.stopped (fun _ h => absurd h List.not_mem_nil) (Nat.sub_pos_of_lt hlt) hc)⟩
    | overflow n hc hadd =>
      have hroom := hcall.room
      rw [Call.moved_of_ok hc, List.length_drop] at hroom
      omega
    | failed f hc hi hr =>
      obtain ⟨e, rfl⟩ := c.exists_of_result_eq_error hc
      subst hr
      rw [hc] at hi
      exact ⟨ms, [c], .last hlt hcall (by rw [hc]; exact hi) (Call.moved_of_error hc)
        (.failed (fun _ h => absurd h List.not_mem_nil) (Nat.sub_pos_of_lt hlt) hc hi)⟩
  | continues s h written m hlt hgo ih =>
    obtain ⟨ms, c, hcall⟩ := writeCall_write hh hend (data.drop written)
    have hgo : Continues written c.result m := by
      rw [← hcall.result]
      exact hgo
    have hroom := hcall.room
    rw [List.length_drop] at hroom
    obtain rfl := Call.eq_of_continues hgo
    obtain ⟨ms', cs, hrest⟩ := ih (by omega) (fun m hm => hh m (hcall.mem_script hm))
      (hcall.atEnd hend)
    exact ⟨ms ++ ms', cs ++ [c], .before hcall hgo.goesOn hrest⟩

/-! ### What is not to be seen -/

theorem Ends.movedBy_eq {room n : Nat} {cs : List Call} {r : Attempt IoError Nat}
    (h : Ends room (.ok room) (fun k => .ok (0 + k)) cs r) (hr : r = .ok n) : movedBy cs = n := by
  cases h with
  | full _ hall => exact hall.trans (Except.ok.inj hr)
  | @stopped c cs _ _ hc =>
    have hmoved : movedBy (c :: cs) = c.moved + movedBy cs := List.sum_cons
    rw [hmoved, Call.moved_of_ok hc]
    exact Except.ok.inj hr
  | failed => cases hr

theorem Ends.movedBy_eq_room {room n : Nat} {cs : List Call} {e : IoError} {r : Attempt IoError Nat}
    (h : Ends room (.ok room) (fun _ => Attempt.fail e) cs r) (hr : r = .ok n) :
    movedBy cs = room := by
  cases h with
  | full _ hall => exact hall
  | stopped => cases hr
  | failed => cases hr

theorem Move.Slow.honest {m : Move} (h : m.Slow) : m.Honest := by
  cases m with
  | atMost | fail => trivial
  | lie | crash => exact h.elim

theorem ReadCalls.slow {buf : Span} {filled : Nat} {ms : List Move} {cs : List Call}
    {r : ReadReply (Store × Handle)} (hr : ReadCalls s h buf filled ms cs r)
    (hslow : ∀ m ∈ (s.faults h.path).reads, m.Slow) : ∀ m ∈ ms, m.Slow := by
  intro m hm
  apply hslow
  rw [hr.script]
  exact List.mem_append_left _ hm

theorem WriteCalls.slow {written : Nat} {ms : List Move} {cs : List Call}
    {r : IoReply (Store × Handle) Nat} (hw : WriteCalls s h data written ms cs r)
    (hslow : ∀ m ∈ (s.faults h.path).writes, m.Slow) : ∀ m ∈ ms, m.Slow := by
  intro m hm
  apply hslow
  rw [hw.script]
  exact List.mem_append_left _ hm

theorem ReadCalls.same {buf : Span} {ms ms' : List Move} {cs cs' : List Call}
    {r r' : ReadReply (Store × Handle)} (hr : ReadCalls s h buf 0 ms cs r)
    (hr' : ReadCalls s' h buf 0 ms' cs' r') (hcontents : s'.contents h.path = s.contents h.path)
    (hslow : ∀ m ∈ ms, m.Slow) (hslow' : ∀ m ∈ ms', m.Slow) :
    r'.result = r.result ∧ r'.written = r.written := by
  have hahead : s'.ahead h = s.ahead h := congrArg (List.drop _) hcontents
  have hresult := hr.served hslow
  have hresult' := hr'.served hslow'
  rw [hahead] at hresult'
  refine ⟨hresult'.trans hresult.symm, ?_⟩
  rw [hr'.written, hr.written, hahead, hr'.ends.movedBy_eq hresult', hr.ends.movedBy_eq hresult]

theorem WriteCalls.same {ms ms' : List Move} {cs cs' : List Call}
    {r r' : IoReply (Store × Handle) Nat} (hw : WriteCalls s h data 0 ms cs r)
    (hw' : WriteCalls s' h data 0 ms' cs' r') (hcontents : s'.contents h.path = s.contents h.path)
    (hslow : ∀ m ∈ ms, m.Slow) (hslow' : ∀ m ∈ ms', m.Slow) :
    r'.result = r.result ∧ r'.state.1.contents h.path = r.state.1.contents h.path := by
  have hresult := hw.served hslow
  have hresult' := hw'.served hslow'
  refine ⟨hresult'.trans hresult.symm, ?_⟩
  rw [hw'.contents, hw.contents, hcontents, hw'.ends.movedBy_eq_room hresult',
    hw.ends.movedBy_eq_room hresult]

/-- Interruptions put into the scripts change nothing. Over honest scripts a read moves the next bytes of
    the file to the start of the buffer, and a write puts the first bytes of the data behind what the file
    holds, until all is moved, a call moves none, or a call fails for good. Whatever the scripts, transfers
    that have met neither calls without bytes nor failures for good do the same. -/
theorem transfers_transparent (s s' : Store) (h : Handle) (buf : Span) (data : List UInt8)
    (hbuf : buf.size ≤ Size.max) (hdata : data.length ≤ Size.max) :
    (SameButInterrupted (s', h) (s, h) →
      SameReply SameButInterrupted (backend.readFull s' h buf).toIoReply
          (backend.readFull s h buf).toIoReply ∧
        (backend.readFull s' h buf).written = (backend.readFull s h buf).written ∧
        SameReply SameButInterrupted (backend.writeFull s' h data) (backend.writeFull s h data)) ∧
      ((∀ m ∈ (s.faults h.path).reads, m.Honest) →
        ∃ ms cs, ReadCalls s h buf 0 ms cs (backend.readFull s h buf)) ∧
      ((∀ m ∈ (s.faults h.path).writes, m.Honest) → s.AtEnd h →
        ∃ ms cs, WriteCalls s h data 0 ms cs (backend.writeFull s h data)) ∧
      (s'.contents h.path = s.contents h.path → ∀ ms cs ms' cs', (∀ m ∈ ms, m.Slow) →
        (∀ m ∈ ms', m.Slow) →
        (ReadCalls s h buf 0 ms cs (backend.readFull s h buf) →
          ReadCalls s' h buf 0 ms' cs' (backend.readFull s' h buf) →
          (backend.readFull s' h buf).result = (backend.readFull s h buf).result ∧
            (backend.readFull s' h buf).written = (backend.readFull s h buf).written) ∧
        (WriteCalls s h data 0 ms cs (backend.writeFull s h data) →
          WriteCalls s' h data 0 ms' cs' (backend.writeFull s' h data) →
          (backend.writeFull s' h data).result = (backend.writeFull s h data).result ∧
            (backend.writeFull s' h data).state.1.contents h.path =
              (backend.writeFull s h data).state.1.contents h.path)) := by
  refine ⟨fun hx => ?_, fun hh => ?_, fun hh hend => ?_, ?_⟩
  · obtain ⟨hsame, hwritten⟩ := delays_backend.readFull hx buf
    exact ⟨hsame, hwritten, delays_backend.writeFull hx data⟩
  · exact readCalls_readFrom (Nat.zero_le _) hbuf hh
  · exact writeCalls_writeFrom (Nat.zero_le _) hdata hh hend
  · intro hcontents ms cs ms' cs' hslow hslow'
    exact ⟨fun hr hr' => hr.same hr' hcontents hslow hslow',
      fun hw hw' => hw.same hw' hcontents hslow hslow'⟩

/-- A file of two bytes, read and written one byte at first, after the moves `ms`. -/
def pausing (ms : List Move) : Store :=
  (Store.put {} "f" [7, 8]).setFaults "f" { reads := ms ++ [.atMost 1], writes := ms ++ [.atMost 1] }

theorem slow_pausing {ms : List Move} (h : ∀ m ∈ ms, m.Slow) : ∀ m ∈ ms ++ [.atMost 1], m.Slow := by
  intro m hm
  rcases List.mem_append.mp hm with hm | hm
  · exact h m hm
  · rw [List.mem_singleton.mp hm]
    exact Nat.one_pos

/-- With an interruption put in, all of the file is read as it would be without it, and all that is written
    stands behind it. -/
theorem transfers_transparent_pausing :
    (backend.readFull (pausing [.fail (.os 4)]) ⟨"f", 0⟩ (.ofList [0, 0, 0])).result = .ok 2 ∧
      (backend.readFull (pausing [.fail (.os 4)]) ⟨"f", 0⟩ (.ofList [0, 0, 0])).written =
        (backend.readFull (pausing []) ⟨"f", 0⟩ (.ofList [0, 0, 0])).written ∧
      (backend.writeFull (pausing [.fail (.os 4)]) ⟨"f", 2⟩ [9, 9, 9]).state.1.contents "f" =
        [7, 8, 9, 9, 9] := by
  have hplain := @slow_pausing [] fun _ h => absurd h List.not_mem_nil
  have hpaused := @slow_pausing [.fail (.os 4)] fun m hm => by
    rw [List.mem_singleton.mp hm]
    rfl
  have hsame : SameButInterrupted (pausing [.fail (.os 4)], ⟨"f", 0⟩) (pausing [], ⟨"f", 0⟩) :=
    ⟨rfl, rfl, .insert (Or.inl rfl) (.refl _), .insert (Or.inl rfl) (.refl _)⟩
  obtain ⟨hinterrupted, hreads, -, htwo⟩ := transfers_transparent (pausing [])
    (pausing [.fail (.os 4)]) ⟨"f", 0⟩ (.ofList [0, 0, 0]) [9, 9, 9] (by decide) (by decide)
  obtain ⟨-, hreads', -, -⟩ := transfers_transparent (pausing [.fail (.os 4)]) (pausing [])
    ⟨"f", 0⟩ (.ofList [0, 0, 0]) [9, 9, 9] (by decide) (by decide)
  obtain ⟨-, -, hwrites, -⟩ := transfers_transparent (pausing [.fail (.os 4)]) (pausing [])
    ⟨"f", 2⟩ (.ofList [0, 0, 0]) [9, 9, 9] (by decide) (by decide)
  obtain ⟨ms, cs, hr⟩ := hreads fun m hm => (hplain m hm).honest
  obtain ⟨ms', cs', hr'⟩ := hreads' fun m hm => (hpaused m hm).honest
  obtain ⟨ms₂, cs₂, hw⟩ := hwrites (fun m hm => (hpaused m hm).honest) rfl
  obtain ⟨hreads, -⟩ := htwo rfl ms cs ms' cs' (hr.slow hplain) (hr'.slow hpaused)
  have hwritten := hw.served (hw.slow hpaused)
  refine ⟨(hinterrupted hsame).1.result.trans (hr.served (hr.slow hplain)), (hreads hr hr').2, ?_⟩
  rw [hw.contents, hw.ends.movedBy_eq_room hwritten]
  rfl

end FilePipeline.Backend.Scripted
