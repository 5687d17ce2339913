import FilePipeline.Proofs.Dispatcher.Shutdown

/-! # Status codes

The status code of a ticket is a number for each class of results, and the operating system's own number
for a platform error that has one. It tells the classes apart except for platform errors whose number is
that of a class (`statusCode_eq_iff`). Such an error comes from the backend, since all other errors of
a run have the number of their class: as long as no call fails with a number from -5 to 0, the code alone
tells which class a result is of (`Recorded.status_codes`). -/

namespace FilePipeline

/-- The class of results that has the status code `n`. -/
inductive OfClass : Int → Except WorkError Unit → Prop
  | ok : OfClass 0 (.ok ())
  | path (e : PathError) : OfClass (-1) (.error (.path e))
  | codec (e : CodecError) : OfClass (-2) (.error (.codec e))
  | memory (e : AllocError) : OfClass (-3) (.error (.memory e))
  | abandoned : OfClass (-4) (.error .abandoned)
  /-- A platform error without a number of the operating system. -/
  | unnumbered (kind : IoKind) (text : String) : OfClass (-5) (.error (.io (.custom kind text)))

theorem OfClass.statusCode {n : Int} {x : Except WorkError Unit} (h : OfClass n x) :
    statusCode x = n := by
  cases h <;> rfl

theorem exists_ofClass (x : Except WorkError Unit) :
    OfClass (statusCode x) x ∨ x = .error (.io (.os (statusCode x))) := by
  rcases x with e | ⟨⟩
  · cases e with
    | path e => exact Or.inl (.path e)
    | io e =>
      cases e with
      | os number => exact Or.inr rfl
      | custom kind text => exact Or.inl (.unnumbered kind text)
    | codec e => exact Or.inl (.codec e)
    | memory e => exact Or.inl (.memory e)
    | abandoned => exact Or.inl .abandoned
  · exact Or.inl .ok

theorem statusCode_eq_iff (x : Except WorkError Unit) (n : Int) :
    statusCode x = n ↔ OfClass n x ∨ x = .error (.io (.os n)) := by
  constructor
  · rintro rfl
    exact exists_ofClass x
  · rintro (h | rfl)
    · exact h.statusCode
    · rfl

namespace Dispatcher

variable {σ η κ : Type} {p : Setup σ η κ} {d₀ d : Dispatcher σ κ} {rs : List Submission}
  {ts : List (Turn σ κ)} {id : WorkId} {t : Ticket}

theorem Recorded.source (h₀ : Unused p d₀) (h : Recorded p d₀ rs ts d) (ht : d.tickets[id]? = some t)
    (hd : t.isDone = true) {e : IoError} (he : t.result = .error (.io e)) :
    e = .acceptedNothing ∨ p.backend.Fails e := by
  obtain ⟨o, hshows, hend⟩ := h.ending h₀ ht hd
  have hres : o.result = .error (.io e) := hshows.result.symm.trans he
  cases hend with
  | unfit | crashed | dropped => cases hres
  | @turn u r hu _ hr =>
    obtain rfl : r = .error (.io e) := hres
    have hr : u.result p = .error (.error (.io e)) := hr
    obtain ⟨d₁, s, w⟩ := u
    cases s with
    | io => exact Stage.source_of_processIo hr
    | compression => exact (Stage.raises_processCompression hr).elim

/-- What the status code of a ticket tells. -/
structure StatusCodes (p : Setup σ η κ) (t : Ticket) : Prop where
  /-- It is `n` exactly if the result is of the class with that code, or a platform error with that
      very number. -/
  tells : ∀ n, t.statusCode = n ↔ OfClass n t.result ∨ t.result = .error (.io (.os n))
  /-- The numbers of platform errors are the backend's own. -/
  source : ∀ n, t.result = .error (.io (.os n)) → p.backend.Fails (.os n)
  /-- So if none of these is the code of a class, the codes tell the classes apart. -/
  apart : (∀ n, -5 ≤ n → n ≤ 0 → ¬ p.backend.Fails (.os n)) →
    ∀ n, -5 ≤ n → n ≤ 0 → (t.statusCode = n ↔ OfClass n t.result)

/-- The status codes of a run, whatever the backend, the codec and the heaps do. -/
theorem Recorded.status_codes (h₀ : Fresh p d₀) (h : Recorded p d₀ rs ts d)
    (ht : d.tickets[id]? = some t) (hd : t.isDone = true) : StatusCodes p t := by
  have htells : ∀ n, t.statusCode = n ↔ OfClass n t.result ∨ t.result = .error (.io (.os n)) :=
    fun n => statusCode_eq_iff t.result n
  have hsource : ∀ n, t.result = .error (.io (.os n)) → p.backend.Fails (.os n) := by
    intro n hn
    rcases h.source h₀.unused ht hd hn with he | hf
    · cases he
    · exact hf
  refine ⟨htells, hsource, fun hnone n hlow hhigh => (htells n).trans (or_iff_left fun hn => ?_)⟩
  exact hnone n hlow hhigh (hsource n hn)

/-! ### Files that cannot be opened -/

open Backend.Scripted (Store)

/-- A file that cannot be opened, with this number. -/
def refusingStore (number : Int) : Store :=
  ({} : Store).setFaults "f" { openFile := some (.fail (.os number)) }

/-- A read of this file, up to its end. -/
def refusedRead (number : Int) : Option (Dispatcher Store Unit) :=
  (scripted? 1 {} (refusingStore number)).bind (replay (scriptedSetup 1 {})
    [.submit (.read "f" 0 false false), .act (.push 0), .act (.pop .io), .act (.process .io)])

/-- The number with which the read failed that is first in line, if it did. -/
def failedWith? (d : Dispatcher Store Unit) : Option Int :=
  (d.done? 0).bind fun t => match t.result with
    | .error (.io e) => e.osNumber?
    | _ => none

theorem exists_refused_read {number : Int} (h : (refusedRead number).bind failedWith? = some number) :
    ∃ d₀ d ts t, Fresh (scriptedSetup 1 {}) d₀ ∧
      Recorded (scriptedSetup 1 {}) d₀ [.read "f" 0 false false] ts d ∧ d.tickets[0]? = some t ∧
      t.isDone = true ∧ t.result = .error (.io (.os number)) := by
  obtain ⟨d, hd, hfailed⟩ := Option.bind_eq_some_iff.mp h
  obtain ⟨d₀, h₀, hr⟩ := Option.bind_eq_some_iff.mp hd
  obtain ⟨t, ht, hres⟩ := Option.bind_eq_some_iff.mp hfailed
  obtain ⟨ht, hdone⟩ := done?_eq_some ht
  obtain ⟨ts, hrec⟩ := (run_of_replay hr).recorded
  refine ⟨d₀, d, ts, t, fresh_scripted h₀, hrec, ht, hdone, ?_⟩
  split at hres
  · next e he =>
    cases e with
    | os n =>
      obtain rfl : n = number := Option.some.inj hres
      exact he
    | custom => cases hres
  · cases hres

/-- A file that is not there: the code is the operating system's number. -/
theorem status_codes_of_missing_file : ∃ d₀ d ts t, Fresh (scriptedSetup 1 {}) d₀ ∧
    Recorded (scriptedSetup 1 {}) d₀ [.read "f" 0 false false] ts d ∧ d.tickets[0]? = some t ∧
    t.isDone = true ∧ t.result = .error (.io (.os 2)) ∧ StatusCodes (scriptedSetup 1 {}) t := by
  obtain ⟨d₀, d, ts, t, hfresh, hrec, ht, hd, hres⟩ :=
    exists_refused_read (show (refusedRead 2).bind failedWith? = some 2 by decide +kernel)
  exact ⟨d₀, d, ts, t, hfresh, hrec, ht, hd, hres, hrec.status_codes hfresh ht hd⟩

/-- A platform error with the number 0: the read has failed, and its status code is that of success. -/
theorem failure_with_code_of_success : ∃ d₀ d ts t, Fresh (scriptedSetup 1 {}) d₀ ∧
    Recorded (scriptedSetup 1 {}) d₀ [.read "f" 0 false false] ts d ∧ d.tickets[0]? = some t ∧
    t.isDone = true ∧ t.statusCode = 0 ∧ t.result ≠ .ok () := by
  obtain ⟨d₀, d, ts, t, hfresh, hrec, ht, hd, hres⟩ :=
    exists_refused_read (show (refusedRead 0).bind failedWith? = some 0 by decide +kernel)
  refine ⟨d₀, d, ts, t, hfresh, hrec, ht, hd, ?_, ?_⟩
  · unfold Ticket.statusCode
    rw [hres]
    rfl
  · rw [hres]
    exact fun hok => by cases hok

end Dispatcher

end FilePipeline
