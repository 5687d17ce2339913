import FilePipeline.Proofs.Dispatcher.Answers
import FilePipeline.Proofs.Dispatcher.Garbage
import FilePipeline.Proofs.Dispatcher.Runs
import Mathlib.Data.List.Forall2

/-! # No stale bytes

Memory that is handed out again still holds what was in it before. If any of that reached a client or a
file, then two runs over heaps with different garbage could be told apart. They cannot
(`Played.no_stale_bytes`): whatever happens in the one can happen in the other, clients are told the same,
and the backend is left in the same state. This holds for any sources, inside any tracking heaps, whether
they clear their blocks themselves or not, and whatever counts the backend and the codec tell. -/

namespace FilePipeline

/-- Two answers that nobody can tell apart: they are the same, or hand buffers over that lie at the same
place, with the same length and the same bytes. -/
inductive Response.Same : Response → Response → Prop
  | refl (a : Response) : Same a a
  | take {b b' : Buffer} (place : b.lease = b'.lease) (contents : b.Like b') :
      Same (.take (some b)) (.take (some b'))

theorem Response.same_of_clean {a a' : Response} (h : a.clean = a'.clean) : a.Same a' := by
  cases a with
  | take b =>
    cases a' with
    | take b' =>
      have hb : b.map Buffer.clean = b'.map Buffer.clean := Response.take.inj h
      cases b with
      | none =>
        cases b' with
        | none => exact .refl _
        | some b' => cases hb
      | some b =>
        cases b' with
        | none => cases hb
        | some b' =>
          obtain ⟨place, contents⟩ := Buffer.clean_eq_clean.mp (Option.some.inj hb)
          exact .take place contents
    | _ => cases h
  | _ =>
    cases a' <;> cases h
    exact .refl _

theorem forall₂_of_map_eq {α β : Type} {f : α → β} {as as' : List α} (h : as.map f = as'.map f) :
    List.Forall₂ (fun a a' => f a = f a') as as' := by
  have hall : List.Forall₂ (· = ·) (as.map f) (as'.map f) := List.forall₂_eq_eq_eq ▸ h
  exact List.forall₂_map_right_iff.mp (List.forall₂_map_left_iff.mp hall)

namespace Ticket

theorem answers_delivered {t : Ticket} {b : Buffer} {data : List UInt8} (hd : t.isDone = true)
    (hop : t.op = .read) (hr : t.outcome.result = .ok ()) (hb : t.outcome.buffer = .owned b)
    (hdelivers : b.Delivers data true) : t.answers [.result, .buffer, .terminated] =
      [.result (.ok ()), .buffer (some data), .terminated (some (data ++ [0]))] := by
  have hd' := (t.kept_after hd .result).isDone hd
  have ho : (t.after .result).outcome = t.outcome := outcome_after hd nofun
  have ho' : ((t.after .result).after .buffer).outcome = t.outcome :=
    (outcome_after (a := .buffer) hd' nofun).trans ho
  have hop' : ((t.after .result).after .buffer).op = .read := by rw [op_after, op_after, hop]
  show [Response.result t.outcome.result, .buffer (t.after .result).outcome.shown,
    .terminated (((t.after .result).after .buffer).outcome.terminated
      ((t.after .result).after .buffer).op)] = _
  rw [ho, ho', hop']
  unfold Outcome.shown Outcome.terminated
  rw [hr, hb]
  show [Response.result (.ok ()), .buffer (some b.bytes), .terminated b.terminated?] = _
  rw [hdelivers.bytes, hdelivers.terminator rfl]

theorem answers_clean (t : Ticket) (as : List Accessor) :
    t.clean.answers as = (t.answers as).map Response.clean := by
  induction as generalizing t with
  | nil => rfl
  | cons a as ih =>
    show t.clean.answer a :: (t.clean.after a).answers as = _
    rw [answer_clean, after_clean, ih]
    rfl

end Ticket

namespace Dispatcher

variable {σ η κ : Type} {p : Setup σ η κ} {d d' : Dispatcher σ κ}

/-- The deed, with the buffer clean that is given back. -/
def Deed.clean : Deed → Deed
  | .giveBack b => .giveBack b.clean
  | e => e

/-- What clients were told, with the buffers clean that they were given. -/
def Transcript.clean (log : Transcript) : Transcript := log.map fun x => (x.1, x.2.clean)

theorem Deed.clean_eq_act {e : Deed} {a : Action} : e.clean = .act a ↔ e = .act a := by
  cases e <;> simp [clean]

theorem held?_clean (d : Dispatcher σ κ) (id : WorkId) :
    d.clean.held? id = (d.held? id).map Ticket.clean := by
  unfold held?
  rw [ticket_clean]
  exact Option.filter_map

theorem done?_clean (d : Dispatcher σ κ) (id : WorkId) :
    d.clean.done? id = (d.done? id).map Ticket.clean := by
  unfold done?
  rw [ticket_clean]
  exact Option.filter_map

theorem beginHalt_clean (d : Dispatcher σ κ) : d.clean.beginHalt = d.beginHalt.clean := by
  have hhalt : d.clean.halt = d.halt := rfl
  have hwaiting : d.clean.waiting.isEmpty = d.waiting.isEmpty := List.isEmpty_map
  unfold beginHalt
  rw [hhalt, hwaiting]
  cases d.halt with
  | running => dsimp only; split <;> rfl
  | _ => rfl

theorem dropHandle_clean (d : Dispatcher σ κ) (id : WorkId) :
    d.clean.dropHandle id = (d.dropHandle id).clean := by
  unfold dropHandle
  rw [done?_clean]
  cases d.done? id with
  | none => rfl
  | some t =>
    dsimp only [Option.map_some]
    rw [Ticket.drop_clean, release_clean, setTicket_clean]

/-- Deeds that are no steps only pass buffers on. -/
theorem perform_clean (p : Setup σ η κ) (d : Dispatcher σ κ) {e : Deed} (he : ∀ a, e ≠ .act a) :
    d.clean.perform p e.clean = (d.perform p e).map fun x => (x.1.clean, x.2.clean) := by
  cases e with
  | act a => exact absurd rfl (he a)
  | beginHalt => exact congrArg (fun d => some (([] : Transcript), d)) d.beginHalt_clean
  | giveBack b => exact congrArg (fun d => some (([] : Transcript), d)) (d.release_clean (.owned b))
  | submit r =>
    show (if d.halt = .running then some ([], d.clean.submit p r) else none) = _
    rw [submit_clean]
    simp only [perform]
    split <;> rfl
  | ask id a =>
    show (d.clean.held? id).bind _ = _
    simp only [perform]
    rw [held?_clean]
    cases d.held? id with
    | none => rfl
    | some t =>
      simp only [Option.map_some, Option.bind_some]
      rw [Ticket.answer_clean, Ticket.after_clean, setTicket_clean]
      show (if a.waits t.op && !t.isDone then none else _) = _
      split <;> rfl
  | dropHandle id =>
    show (d.clean.held? id).bind _ = _
    simp only [perform]
    rw [held?_clean]
    cases d.held? id with
    | none => rfl
    | some t =>
      simp only [Option.map_some, Option.bind_some]
      rw [dropHandle_clean]
      show (if t.isDone then _ else none) = _
      split <;> rfl

section

variable (hb : p.backend.KeepsToSpans) (hc : p.codec.KeepsToSpans)

include hb hc

theorem perform_of_clean (h : d.clean = d'.clean) {e e' : Deed} (he : e.clean = e'.clean) :
    (d.perform p e).map (fun x => (x.1.clean, x.2.clean)) =
      (d'.perform p e').map fun x => (x.1.clean, x.2.clean) := by
  by_cases hact : ∃ a, e = .act a
  · obtain ⟨a, rfl⟩ := hact
    obtain rfl : e' = .act a := Deed.clean_eq_act.mp he.symm
    have hquiet : ∀ o : Option (Dispatcher σ κ),
        (o.map fun d => ([], d)).map (fun x : Transcript × Dispatcher σ κ => (x.1.clean, x.2.clean)) =
          (o.map clean).map fun d => ([], d) := fun o => by cases o <;> rfl
    simp only [perform]
    rw [hquiet, hquiet, step_of_clean hb hc h a]
  · have hn : ∀ a, e ≠ .act a := fun a ha => hact ⟨a, ha⟩
    have hn' : ∀ a, e' ≠ .act a := fun a ha =>
      hn a (Deed.clean_eq_act.mp (he.trans (Deed.clean_eq_act.mpr ha)))
    rw [← perform_clean p d hn, ← perform_clean p d' hn', h, he]

/-- Whatever happens can happen to a dispatcher that is the same but for garbage. -/
theorem Played.of_clean {d₁ : Dispatcher σ κ} {es : List Deed} {log : Transcript}
    (hs : Played p d es log d₁) : ∀ {d' : Dispatcher σ κ} {es' : List Deed}, d.clean = d'.clean →
      es.map Deed.clean = es'.map Deed.clean →
      ∃ log' d₁', Played p d' es' log' d₁' ∧ log.clean = log'.clean ∧ d₁.clean = d₁'.clean := by
  induction hs with
  | nil d =>
    intro d' es' h hes
    obtain rfl : es' = [] := List.map_eq_nil_iff.mp hes.symm
    exact ⟨[], d', .nil d', rfl, h⟩
  | @cons d d₁ d₂ e es as log hp _ ih =>
    intro d' es' h hes
    obtain ⟨e', es', rfl, he, hes⟩ := List.map_eq_cons_iff.mp hes.symm
    have hperform := perform_of_clean hb hc h he.symm
    rw [hp] at hperform
    obtain ⟨⟨as', d₁'⟩, hp', hsame⟩ := Option.map_eq_some_iff.mp hperform.symm
    obtain ⟨has, hd₁⟩ := Prod.mk.inj hsame
    obtain ⟨log', d₂', hs', hlog, hd₂⟩ := ih hd₁.symm hes.symm
    refine ⟨as' ++ log', d₂', .cons hp' hs', ?_, hd₂⟩
    have happend : ∀ l l' : Transcript, (l ++ l').clean = l.clean ++ l'.clean := fun _ _ => List.map_append
    rw [happend, happend, hlog, ← show as'.clean = as.clean from has]

end

/-! ### From the start -/

theorem start_clean (p : Setup σ η κ) (platform : Platform) (heaps : Heaps) (s : σ) (k : κ) :
    (start p platform heaps.clean s k).answer = (start p platform heaps s k).answer.map clean := by
  unfold start
  rw [Heaps.name_clean]
  cases p.config.validate with
  | error e => rfl
  | ok =>
    dsimp only
    cases hq : (Queue.ofReferences p.config.queueCapacity : Except Crash (Queue Work)) with
    | error c => rfl
    | ok q =>
      obtain rfl := eq_ofCapacity hq
      dsimp only
      rcases startWorker platform p.config .io with e | io
      · rfl
      · dsimp only
        rcases startWorker platform p.config .compression with (e | c) | compression <;> rfl

/-- Two runs that nobody can tell apart. -/
structure Indistinct (log log' : Transcript) (d d' : Dispatcher σ κ) : Prop where
  /-- Clients were told the same, each by the same handle. -/
  told : List.Forall₂ (fun x x' => x.1 = x'.1 ∧ x.2.Same x'.2) log log'
  /-- The same is in all files. -/
  backend : d.backend = d'.backend
  /-- There are the same handles, and whatever they are asked, they answer the same. -/
  handles : List.Forall₂ (fun t t' => ∀ as, List.Forall₂ Response.Same (t.answers as) (t'.answers as))
    d.tickets d'.tickets

theorem indistinct_of_clean {log log' : Transcript} (hlog : log.clean = log'.clean)
    (h : d.clean = d'.clean) : Indistinct log log' d d' where
  told := (forall₂_of_map_eq hlog).imp fun x x' he => by
    obtain ⟨hid, ha⟩ := Prod.mk.inj he
    exact ⟨hid, Response.same_of_clean ha⟩
  backend := by
    have hbackend : d.clean.backend = d'.clean.backend := congrArg Dispatcher.backend h
    exact hbackend
  handles := by
    have htickets : d.clean.tickets = d'.clean.tickets := congrArg Dispatcher.tickets h
    refine (forall₂_of_map_eq htickets).imp fun t t' ht as => ?_
    have hanswers : (t.answers as).map Response.clean = (t'.answers as).map Response.clean := by
      rw [← t.answers_clean, ← t'.answers_clean, ht]
    exact (forall₂_of_map_eq hanswers).imp fun _ _ => Response.same_of_clean

/-- **No stale bytes.** Whatever happens over heaps with some garbage can happen over the same heaps with
other garbage, and nobody can tell the difference. -/
theorem Played.no_stale_bytes (hb : p.backend.KeepsToSpans) (hc : p.codec.KeepsToSpans)
    {platform : Platform} {heaps heaps' : Heaps} (hh : heaps.clean = heaps'.clean) {s : σ} {k : κ}
    {d₀ : Dispatcher σ κ} (h₀ : (start p platform heaps s k).answer = .ok d₀) {es es' : List Deed}
    (hes : es.map Deed.clean = es'.map Deed.clean) {log : Transcript} (h : Played p d₀ es log d) :
    ∃ d₀' log' d', (start p platform heaps' s k).answer = .ok d₀' ∧ Played p d₀' es' log' d' ∧
      Indistinct log log' d d' := by
  have hstart : (start p platform heaps s k).answer.map clean =
      (start p platform heaps' s k).answer.map clean := by
    rw [← start_clean, ← start_clean, hh]
  rcases cases_of_map_eq hstart with ⟨e, he, -⟩ | ⟨a, d₀', ha, h₀', hclean⟩
  · cases h₀.symm.trans he
  · obtain rfl := Except.ok.inj (h₀.symm.trans ha)
    obtain ⟨log', d', hs, hlog, hd⟩ := h.of_clean hb hc hclean hes
    exact ⟨d₀', log', d', h₀', hs, indistinct_of_clean hlog hd⟩

/-! ### A read that is a lie -/

open Backend.Scripted (Store)

/-- A source that serves everything and leaves the same byte everywhere, inside a tracking heap. -/
def littered (byte : UInt8) : Heaps :=
  let source : Source := ⟨"littered", fun _ _ => .ok (), fun _ _ => byte, false⟩
  ⟨[⟨source.name, .source source [], 2⟩, ⟨Heaps.trackingName source.name, .tracking 0 false {}, 1⟩], 1⟩

theorem newBuffer_littered (byte : UInt8) :
    ∃ b hs₁, (littered byte).newBuffer 1 4 defaultAlignment = (.ok b, hs₁) := by
  have hlayers : (littered byte).layers 1 = ([1], 0) := by
    rw [Heaps.layers_of_some (show (littered byte).inner? 1 = some 0 from rfl),
      Heaps.layers_of_none (show (littered byte).inner? 0 = none from rfl)]
  unfold Heaps.newBuffer Heaps.allocate
  rw [if_pos (by decide), hlayers]
  exact ⟨_, _, rfl⟩

/-- A file of three bytes, of which the first read says that it got them, and does nothing. -/
def lyingStore : Store := (({} : Store).put "f" [7, 7, 7]).setFaults "f" { reads := [.lie 3] }

/-- A read loop is content with a lie. -/
theorem readFull_lie {s s' : Store} {h : Backend.Scripted.Handle} {buf : Span}
    (hn : s.nextRead h.path = (some (.lie 3), s')) (hbuf : buf.size = 3) :
    Backend.Scripted.backend.readFull s h buf =
      ⟨⟨.ok 3, (s'.log h.path (.read 3) (.ok (some 3)), h)⟩,
        (buf.overlay 0 ⟨3, (buf.drop 0).byte⟩).byte⟩ := by
  have hcall : Backend.Scripted.backend.read s h (buf.drop 0) =
      ⟨⟨.ok 3, (s'.log h.path (.read 3) (.ok (some 3)), h)⟩, (buf.drop 0).byte⟩ := by
    show Backend.Scripted.read s h (buf.drop 0) = _
    unfold Backend.Scripted.read
    rw [hn]
    dsimp only
    rw [Span.size_drop, hbuf]
  rw [Backend.readFull_of_read (by omega) (by rw [hbuf]; decide) (by rw [hcall, hbuf]), hcall, hbuf]

/-- The bytes that were not read are zeros. -/
theorem readContents_lie {hs hs₁ : Heaps} {w : Work} {b : Buffer} (hplain : w.compressed = false)
    (hnull : w.nullTerminate = true) (hnew : hs.newBuffer w.heap 4 defaultAlignment = (.ok b, hs₁))
    {s t s' : Store} {h : Backend.Scripted.Handle}
    (hsized : Backend.Scripted.querySize s h = ⟨.ok 3, (t, h)⟩)
    (hnext : t.nextRead h.path = (some (.lie 3), s')) :
    ∃ b' s₁, Stage.readContents (scriptedSetup 1 {}) hs w s h =
      ⟨.ok (), (w.carry hs₁ b').1, (w.carry hs₁ b').2, s₁⟩ ∧ b'.Delivers [0, 0, 0] true := by
  obtain ⟨hzeros, -⟩ := Heaps.newBuffer_ok hnew
  have hsize : b.storage.size = 4 := hzeros.size
  have htake : (b.storage.take 3).size = 3 := by rw [Span.size_take, hsize]; rfl
  have hread := readFull_lie hnext htake
  generalize hr : Backend.Scripted.backend.readFull t h (b.storage.take 3) = r at hread
  -- what was written is what was there
  have hnone : (⟨3, r.written⟩ : Span).Agrees (.zeros 3) := by
    refine ⟨rfl, fun i hi => ?_⟩
    have hi : i < 3 := hi
    rw [hread]
    show (if 0 ≤ i ∧ i < 0 + 3 then b.storage.byte (0 + (i - 0)) else b.storage.byte i) = 0
    split <;> exact hzeros.byte _ (by omega)
  have hstarts : (b.write (b.storage.overlay 0 ⟨3, r.written⟩).byte).storage.Starts (List.replicate 3 0) :=
    (hnone.starts_zeros (Nat.le_refl 3)).front (show 3 ≤ b.storage.size by omega)
  obtain ⟨b', hb', hdelivers⟩ := Buffer.delivers_of_setLength (n := 3) hstarts rfl true fun _ => by
    show 3 < b.storage.size
    omega
  refine ⟨b', r.state, ?_, hdelivers⟩
  have htarget : Stage.readTarget (scriptedSetup 1 {}) w 3 = (w.heap, 4) := by
    unfold Stage.readTarget Work.extra
    rw [hplain, hnull]
    rfl
  have hresult : r.result = .ok 3 := by rw [hread]
  unfold Stage.readContents
  rw [show (scriptedSetup 1 {}).backend.querySize s h = ⟨.ok 3, (t, h)⟩ from hsized]
  dsimp only
  rw [htarget]
  dsimp only
  rw [show (scriptedSetup 1 {}).config.bufferAlignment = defaultAlignment from rfl, hnew]
  dsimp only
  rw [show (scriptedSetup 1 {}).backend.readFull t h (b.storage.take 3) = r from hr, hresult]
  dsimp only
  unfold Stage.received
  rw [hnull, hplain, show (true && !false) = true from rfl, hb']

theorem processIo_lie {hs hs₁ : Heaps} {w : Work} {b : Buffer} (hop : w.op = .read)
    (hplain : w.compressed = false) (hnull : w.nullTerminate = true)
    (hpath : PathField.ofString? "f" = .ok w.path)
    (hnew : hs.newBuffer w.heap 4 defaultAlignment = (.ok b, hs₁)) :
    ∃ b', (Stage.processIo (scriptedSetup 1 {}) hs lyingStore w).result = .ok () ∧
      (Stage.processIo (scriptedSetup 1 {}) hs lyingStore w).work.buffer = .owned b' ∧
      b'.Delivers [0, 0, 0] true := by
  -- the file is open, and its size is known
  obtain ⟨s, h, hopen, t, hsized, s', hnext⟩ : ∃ s h,
      Backend.Scripted.openFile lyingStore "f" .sharedRead = ⟨.ok h, s⟩ ∧
      ∃ t, Backend.Scripted.querySize s h = ⟨.ok 3, (t, h)⟩ ∧
      ∃ s', t.nextRead h.path = (some (.lie 3), s') := ⟨_, _, rfl, _, rfl, _, rfl⟩
  obtain ⟨b', s₁, hcontents, hdelivers⟩ := readContents_lie hplain hnull hnew hsized hnext
  have hok : (Stage.readContents (scriptedSetup 1 {}) hs w s h).result = .ok () := by rw [hcontents]
  have hclosed : (Stage.closing Backend.Scripted.backend
      (Stage.readContents (scriptedSetup 1 {}) hs w s h)).result = .ok () := by
    rcases Stage.closing_of_ok (b := Backend.Scripted.backend) hok with ⟨c, hcrash, -⟩ | ⟨-, hok⟩
    · -- no closing crashes
      have hcrash : (Backend.Scripted.close _ _).result = .error (.crash c) := hcrash
      unfold Backend.Scripted.close at hcrash
      split at hcrash <;> cases hcrash
    · exact hok
  have hio : Stage.processIo (scriptedSetup 1 {}) hs lyingStore w =
      Stage.closing Backend.Scripted.backend (Stage.readContents (scriptedSetup 1 {}) hs w s h) := by
    unfold Stage.processIo
    rw [hop]
    dsimp only
    unfold Stage.read Stage.withFile
    rw [PathField.text_of_ofString? hpath,
      show (scriptedSetup 1 {}).backend.translate lyingStore "f" = .ok "f" from rfl]
    dsimp only
    rw [show (scriptedSetup 1 {}).backend.openFile lyingStore "f" .sharedRead = ⟨.ok h, s⟩ from hopen]
    rfl
  rw [hio]
  refine ⟨b', hclosed, ?_, hdelivers⟩
  rw [Stage.work_closing, hcontents]
  rfl

/-- Clients are shown three zeros, whatever the memory was littered with. -/
theorem no_stale_bytes_of_lie : ∃ d₀ d es log, (start (scriptedSetup 1 {}) ⟨⟨[], 1⟩, fun _ => none⟩
      (littered 0xAA) lyingStore ()).answer = .ok d₀ ∧
    Played (scriptedSetup 1 {}) d₀ es log d ∧
    Transcript.by log 0 = [.result (.ok ()), .buffer (some [0, 0, 0]), .terminated (some [0, 0, 0, 0])] ∧
    ∃ d₀' log' d', (start (scriptedSetup 1 {}) ⟨⟨[], 1⟩, fun _ => none⟩ (littered 0x55)
      lyingStore ()).answer = .ok d₀' ∧ Played (scriptedSetup 1 {}) d₀' es log' d' ∧
      Indistinct log log' d d' := by
  obtain ⟨d₀, d₁, w, h₀, hbegun, hheaps, hstore, hticket, hw, hid, hop, hplain, hnull, hpath, hheap⟩ :
      ∃ d₀ d₁ w, (start (scriptedSetup 1 {}) ⟨⟨[], 1⟩, fun _ => none⟩ (littered 0xAA)
        lyingStore ()).answer = .ok d₀ ∧
      Played (scriptedSetup 1 {}) d₀
        [.submit (.read "f" 1 true false), .act (.push 0), .act (.pop .io)] [] d₁ ∧
      d₁.heaps = littered 0xAA ∧ d₁.backend = lyingStore ∧ d₁.tickets[0]? = some { op := .read } ∧
      d₁.tasks.get .io = .busy w ∧ w.id = 0 ∧ w.op = .read ∧ w.compressed = false ∧
      w.nullTerminate = true ∧ PathField.ofString? "f" = .ok w.path ∧ w.heap = 1 :=
    ⟨_, _, _, rfl, .silent rfl (.silent rfl (.silent rfl (.nil _))), rfl, rfl, rfl, rfl, rfl, rfl, rfl, rfl,
      rfl, rfl⟩
  have hfresh : Fresh (scriptedSetup 1 {}) d₀ := ⟨_, _, _, _, h₀⟩
  obtain ⟨b, hs₁, hnew⟩ : ∃ b hs₁, (littered 0xAA).newBuffer w.heap 4 defaultAlignment = (.ok b, hs₁) := by
    rw [hheap]
    exact newBuffer_littered 0xAA
  obtain ⟨b', hok, hbuffer, hdelivers⟩ := processIo_lie hop hplain hnull hpath hnew
  rw [← hheaps, ← hstore] at hok hbuffer
  rw [← hid] at hticket
  obtain ⟨t, -, log, d, hplayed, hd, hread, hout, hlog, -, -⟩ :=
    exists_answered_read hfresh hbegun hw hticket hop hplain hok [.result, .buffer, .terminated]
  rw [hid] at hlog
  have hclean : (littered 0xAA).clean = (littered 0x55).clean := rfl
  refine ⟨d₀, d, _, log, h₀, hplayed, ?_, ?_⟩
  · have hresult : t.outcome.result = .ok () := by
      rw [hout]
      rfl
    have hshown : t.outcome.buffer = .owned b' := by
      rw [hout]
      exact hbuffer
    rw [hlog]
    exact Ticket.answers_delivered hd hread hresult hshown hdelivers
  · exact Played.no_stale_bytes Backend.Scripted.keepsToSpans (Codec.keepsToSpans_scripted {}) hclean h₀
      rfl hplayed

end Dispatcher

end FilePipeline
