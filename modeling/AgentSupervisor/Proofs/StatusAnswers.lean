import AgentSupervisor.Proofs.HealthLooks
import AgentSupervisor.Proofs.ExitCodes
import Mathlib.Logic.Relation

/-!
# Whose status is reported

A status request looks up the record of a name, looks at the PID file of that session for some
time, judges what it has found, and then looks up the exit code under the name once more. Between
these moves anything may happen to the table and on the host.

* `Move`             : the moves of a status request, and everything else in between;
* `status_moves`     : without anything in between they are the request;
* `follows_step`     : what becomes of the session that has been looked up;
* `answer_describes` : whose exit code an answer has.
-/

namespace AgentSupervisor

namespace Health

variable {ε : Type} {read read' : Nat → Except ε PidRead} {delay : Nat}

theorem look_reads (left made slept : Nat) (seen : Bool) :
    made < (look read delay (left + 1) made slept seen).reads := by
  induction left generalizing made slept seen with
  | zero =>
    unfold look
    simp only
    split
    · exact Nat.lt_succ_self _
    · exact Nat.lt_succ_self _
    · exact Nat.lt_succ_self _
    · split <;> exact Nat.lt_succ_self _
  | succ left ih =>
    unfold look
    simp only
    split
    · exact Nat.lt_succ_self _
    · exact Nat.lt_succ_self _
    · exact Nat.lt_of_succ_lt (ih _ _ _)
    · split
      · exact Nat.lt_succ_self _
      · exact Nat.lt_of_succ_lt (ih _ _ _)

theorem look_congr (left made slept : Nat) (seen : Bool)
    (h : ∀ j, made < j → j ≤ (look read delay left made slept seen).reads → read' j = read j) :
    look read' delay left made slept seen = look read delay left made slept seen := by
  induction left generalizing made slept seen with
  | zero => rfl
  | succ left ih =>
    have hnow : read' (made + 1) = read (made + 1) :=
      h _ (Nat.lt_succ_self made) (look_reads left made slept seen)
    have hlater {s : Nat} {b : Bool}
        (hsame : look read delay (left + 1) made slept seen = look read delay left (made + 1) s b) :
        look read' delay left (made + 1) s b = look read delay left (made + 1) s b :=
      ih _ _ _ fun j h1 h2 => h j (Nat.lt_of_succ_lt h1) (by rw [hsame]; exact h2)
    cases hr : read (made + 1) with
    | error e => simp only [look, hnow, hr]
    | ok r =>
      cases r with
      | found p => simp only [look, hnow, hr]
      | incomplete =>
        have hgoes := hlater (s := slept + if left = 0 then 0 else delay) (b := true) (by
          simp only [look, hr])
        simp only [look, hnow, hr, hgoes]
      | missing =>
        cases seen with
        | true => simp only [look, hnow, hr, if_true]
        | false =>
          have hgoes := hlater (s := slept + if left = 0 then 0 else delay) (b := false) (by
            simp only [look, hr, Bool.false_eq_true, if_false])
          simp only [look, hnow, hr, Bool.false_eq_true, if_false, hgoes]

/-- **Looks that find the same** end in the same way. -/
theorem looks_congr {policy : RetryPolicy}
    (h : ∀ j, 1 ≤ j → j ≤ (looks read policy).reads → read' j = read j) :
    looks read' policy = looks read policy := look_congr _ _ _ _ h

end Health

namespace Inquiry

open Owners (State Step Sound Reachable Separate SeparateStep Told)
open Supervisor (Apart)
open Scene (Event)

/-! ## Moves -/

/-- What the looks at a PID file have found, the first look first. -/
abbrev Findings := List (Except IoError PidRead)

/-- The look of a number. -/
def Findings.read (ls : Findings) (k : Nat) : Except IoError PidRead := ls.getD (k - 1) (.ok .missing)

/-- How far a status request has come. `start` is the start whose record was looked up, and
    `session` the session of that record. -/
inductive Phase where
  | asked
  | looking (start : Nat) (session : Session) (found : Findings)
  | judged (start : Nat) (session : Session) (report : Report)
  | answered (a : Response)

/-- What the looks that have been made say about a session. -/
def verdict (x : State) (session : Session) (found : Findings) : Except IoError Report :=
  Health.reportOf x.host.table session.patterns
    (Health.looks found.read x.supervisor.config.retryPolicy)

/-- The looks that have been made are all that are to be made. -/
def Complete (x : State) (found : Findings) : Prop :=
  (Health.looks found.read x.supervisor.config.retryPolicy).reads = found.length

/-- A move of a status request, or anything else that happens in the meantime. -/
inductive Move (name : String) : State × Phase → State × Phase → Prop where
  | step (x y : State) (p : Phase) (e : Event) (hs : Step x e y) : Move name (x, p) (y, p)
  | unknown (x : State) (e : RequestError) (he : x.supervisor.record name = .error e) :
      Move name (x, .asked) (x, .answered (.error e.message))
  | found (x : State) (m : Managed) (hm : x.supervisor.record name = .ok m) :
      Move name (x, .asked) (x, .looking (x.registry.startOf name) m.session [])
  | look (x : State) (k : Nat) (session : Session) (found : Findings) :
      Move name (x, .looking k session found) (x, .looking k session
        (found ++ [PidRead.ofFile x.host.storage.disk (x.supervisor.pidPlace session)]))
  | failed (x : State) (k : Nat) (session : Session) (found : Findings) (e : IoError)
      (hdone : Complete x found) (he : verdict x session found = .error e) :
      Move name (x, .looking k session found)
        (x, .answered (.error (RequestError.health e).message))
  | judge (x : State) (k : Nat) (session : Session) (found : Findings) (report : Report)
      (hdone : Complete x found) (hreport : verdict x session found = .ok report) :
      Move name (x, .looking k session found) (x, .judged k session report)
  | answer (x : State) (k : Nat) (session : Session) (report : Report) :
      Move name (x, .judged k session report)
        (x, .answered (x.supervisor.statusAnswer name report))

/-- A move after which the running sessions have process numbers of their own. -/
def SeparateMove (name : String) (z z' : State × Phase) : Prop :=
  Move name z z' ∧ Apart z'.1.supervisor.table

/-- What a supervisor may come to with a status request. A terminal is found by the number of its
    process, and so no session is given one that a running session has on record. -/
inductive Reached (name : String) (z : State × Phase) : Prop where
  | intro (x : State) (hx : Separate x)
      (hr : Relation.ReflTransGen (SeparateMove name) (x, .asked) z)

variable {x y : State} {e : Event} {name : String} {k : Nat} {session : Session} {m : Managed}

/-! ## A request with nothing in between -/

/-- What the looks of a check find when nothing happens in between. -/
def settled (s : Supervisor) (h : Host) (session : Session) : Findings :=
  .replicate (s.looks h session s.config.retryPolicy).reads
    (PidRead.ofFile h.storage.disk (s.pidPlace session))

theorem read_replicate {n j : Nat} (r : Except IoError PidRead) (h1 : 1 ≤ j) (hn : j ≤ n) :
    Findings.read (List.replicate n r) j = r := by
  rw [Findings.read, List.getD_eq_getElem?_getD, List.getElem?_replicate, if_pos (by omega)]
  rfl

theorem looks_settled (s : Supervisor) (h : Host) (session : Session) :
    Health.looks (settled s h session).read s.config.retryPolicy =
      s.looks h session s.config.retryPolicy :=
  Health.looks_congr fun _ h1 hj => read_replicate _ h1 hj

theorem complete_settled (s : Supervisor) (h : Host) (g : Registry) (session : Session) :
    Complete ⟨s, h, g⟩ (settled s h session) := by
  rw [Complete, looks_settled, settled, List.length_replicate]

theorem verdict_settled (s : Supervisor) (h : Host) (g : Registry) (session : Session) :
    verdict ⟨s, h, g⟩ session (settled s h session) =
      s.health h session s.config.retryPolicy := by
  rw [verdict, looks_settled]
  rfl

/-- Looks at a file that does not change. -/
theorem looks_moves (x : State) (hapart : Apart x.supervisor.table) (k : Nat) (session : Session)
    (n : Nat) :
    Relation.ReflTransGen (SeparateMove name) (x, .looking k session [])
      (x, .looking k session (List.replicate n
        (PidRead.ofFile x.host.storage.disk (x.supervisor.pidPlace session)))) := by
  induction n with
  | zero => exact .refl
  | succ n ih =>
    rw [List.replicate_succ']
    exact ih.tail ⟨.look x k session _, hapart⟩

theorem settled_moves {s : Supervisor} {h : Host} {g : Registry} (hapart : Apart s.table)
    (hm : s.record name = .ok m) :
    Relation.ReflTransGen (SeparateMove name) (⟨s, h, g⟩, .asked)
      (⟨s, h, g⟩, .looking (g.startOf name) m.session (settled s h m.session)) :=
  (Relation.ReflTransGen.single ⟨.found ⟨s, h, g⟩ m hm, hapart⟩).trans
    (looks_moves ⟨s, h, g⟩ hapart _ _ _)

theorem judged_moves {s : Supervisor} {h : Host} {g : Registry} {report : Report}
    (hapart : Apart s.table) (hm : s.record name = .ok m)
    (hreport : s.health h m.session s.config.retryPolicy = .ok report) :
    Relation.ReflTransGen (SeparateMove name) (⟨s, h, g⟩, .asked)
      (⟨s, h, g⟩, .judged (g.startOf name) m.session report) :=
  (settled_moves hapart hm).tail ⟨.judge _ _ _ _ report (complete_settled s h g _)
    ((verdict_settled s h g _).trans hreport), hapart⟩

/-- **Without anything in between** the moves are the request, and then the processes are looked
    at when the time of its looks has passed. -/
theorem status_moves (s : Supervisor) (h : Host) (g : Registry) (hapart : Apart s.table)
    (name : String) :
    ∃ y, Relation.ReflTransGen (SeparateMove name) (⟨s, h, g⟩, .asked)
        (y, .answered (s.status name h).1) ∧
      (y.supervisor, y.host) = (s.status name h).2 := by
  unfold Supervisor.status
  cases hm : s.record name with
  | error e => exact ⟨⟨s, h, g⟩, .single ⟨.unknown _ e hm, hapart⟩, rfl⟩
  | ok m =>
    simp only
    cases hhealth : s.health h m.session s.config.retryPolicy with
    | error e =>
      exact ⟨⟨s, h, g⟩, (settled_moves hapart hm).tail ⟨.failed _ _ _ _ e
        (complete_settled s h g _) ((verdict_settled s h g _).trans hhealth), hapart⟩, rfl⟩
    | ok report =>
      have hwaited := (judged_moves (g := g) hapart hm hhealth).tail ⟨.step _ _ _ _
        (.goes s h (s.waited h m) g (Owners.keeps_waited s h m)), hapart⟩
      have hlook := Owners.apart_drain hapart (s.waited h m)
      have hlooked := hwaited.tail ⟨.step _ _ _ _ (.look s (s.waited h m) g), hlook⟩
      exact ⟨_, hlooked.tail ⟨.answer _ _ _ report, hlook⟩, rfl⟩

/-! ## What becomes of a session -/

/-- What an event adds to the register. -/
def noted (g : Registry) : Event → Registry
  | .request _ a => g.note a
  | _ => g

/-- The register knows of a new start what the answer says, and no more. -/
theorem step_startOf (hs : Step x e y) :
    y.registry.startOf = (noted x.registry e).startOf ∧
      y.registry.starts = (noted x.registry e).starts := by
  cases hs <;> exact ⟨rfl, rfl⟩

theorem note_fate (g : Registry) (a : Response) : (g.note a).fate = g.fate := by
  cases a <;> rfl

theorem note_child {s : Supervisor} {h : Host} {g : Registry} (hs : Sound s h g) {a : Response}
    {q : UInt32} (hk : (g.note a).holder q = some (.child k)) : g.fate k = none := by
  cases a with
  | spawned name pid agent mode => exact (hs.begin_child hk).2.2
  | _ => exact (hs.child q k hk).2.2

/-- How a process has ended stays on record once it has been collected. -/
theorem step_fate (hs : Step x e y) (hx : Sound x.supervisor x.host x.registry)
    {t : Termination} (hk : x.registry.fate k = some t) : y.registry.fate k = some t := by
  cases hs with
  | request s h g draw r hfree =>
    refine (Registry.fate_collect_of_not_held fun hholder => ?_).trans ?_
    · rw [note_child hx hholder] at hk
      cases hk
    · rw [note_fate]
      exact hk
  | starved | goes | arrives | leaves => exact hk
  | look s h g => exact hx.fate_collect hk _

/-- And so does its exit code. -/
theorem step_code (hs : Step x e y) (hx : Sound x.supervisor x.host x.registry)
    (hk : (x.registry.code k).isSome = true) : (y.registry.code k).isSome = true := by
  obtain ⟨code, hcode⟩ := Option.isSome_iff_exists.mp hk
  obtain ⟨t, hfate, htold⟩ := Option.bind_eq_some_iff.mp hcode
  rw [Registry.code, step_fate hs hx hfate, Option.bind_some, htold]
  rfl

/-- The record of a name is still that of a start, with its session. -/
def Current (x : State) (name : String) (k : Nat) (session : Session) : Prop :=
  ∃ m ∈ x.supervisor.table, m.name = name ∧ m.session = session ∧ x.registry.startOf name = k

/-- The process of a start has been collected, and its record has been dropped since. -/
def Past (x : State) (k : Nat) : Prop :=
  (x.registry.code k).isSome = true ∧ ∀ m ∈ x.supervisor.table, x.registry.startOf m.name ≠ k

/-- A session that has been looked up. -/
structure Follows (x : State) (name : String) (k : Nat) (session : Session) : Prop where
  early : k < x.registry.starts
  either : Current x name k session ∨ Past x k

theorem follows_found (hx : Sound x.supervisor x.host x.registry)
    (hm : x.supervisor.record name = .ok m) :
    Follows x name (x.registry.startOf name) m.session := by
  rcases x.supervisor.record_cases name with hnone | ⟨m', hm', hnamed, rfl⟩
  · rw [hnone] at hm
    cases hm
  · rw [hm'] at hm
    cases hm
    obtain ⟨hmem, -⟩ := Supervisor.named?_name hnamed
    exact ⟨hx.early m hmem, .inl ⟨m, hmem, rfl, rfl, rfl⟩⟩

/-- The record of a session that has ended is on record with its exit code. -/
theorem code_isSome (ht : Told x.supervisor x.registry) (hm : m ∈ x.supervisor.table)
    (hend : m.isRunning = false) : (x.registry.code (x.registry.startOf m.name)).isSome = true := by
  rw [← ht m hm]
  simpa [Managed.isRunning] using hend

theorem startOf_of_ne (hs : Step x e y)
    (he : ∀ r name pid agent mode, e ≠ .request r (.spawned name pid agent mode)) :
    y.registry.startOf = x.registry.startOf := by
  rw [(step_startOf hs).1]
  cases e with
  | request r a => rw [noted, Registry.note_of_ne fun name pid agent mode ha =>
      he r name pid agent mode (by rw [ha])]
  | look | world => rfl

/-- The supervisor after a step. -/
theorem step_turned (hs : Step x e y) :
    ∃ h, Scene.Turned x.supervisor e (y.supervisor, h) := ⟨y.host, hs.scene.turned⟩

theorem startOf_started {w : SpawnRequest} {p : Prepared} {pid : UInt32}
    (hs : Step x (.request (.spawn w) (Supervisor.spawnedResponse p.session pid)) y) :
    y.registry.startOf = (x.registry.begin p.session.name pid).startOf := (step_startOf hs).1

/-- A look says nothing of a start. -/
theorem startOf_looked (hs : Step x e y)
    (he : e = .look ∨ ∃ name health n code,
      e = .request (.status name) (.status name health n code)) :
    y.registry.startOf = x.registry.startOf := by
  refine startOf_of_ne hs fun r name pid agent mode heq => ?_
  rcases he with rfl | ⟨_, _, _, _, rfl⟩ <;> cases heq

/-- Where a record after a step comes from: it is that of a start before it, or of a new one. -/
theorem step_origin (hs : Step x e y) {m' : Managed} (hm' : m' ∈ y.supervisor.table) :
    (∃ m ∈ x.supervisor.table, m.session = m'.session ∧
      y.registry.startOf m'.name = x.registry.startOf m.name) ∨
    y.registry.startOf m'.name = x.registry.starts := by
  obtain ⟨h, hturned⟩ := step_turned hs
  generalize hz : (y.supervisor, h) = z at hturned
  have htable : z.1.table = y.supervisor.table := by rw [← hz]
  rw [← htable] at hm'
  cases hturned with
  | kept _ c h he => exact .inl ⟨m', hm', rfl, congrFun (startOf_of_ne hs he) _⟩
  | looked _ h he =>
    obtain ⟨m, hm, hlooked⟩ := Scene.mem_drain x.supervisor h hm'
    have hname : m'.name = m.name := by rw [Managed.name, Managed.name, hlooked.session]
    refine .inl ⟨m, hm, hlooked.session.symm, ?_⟩
    rw [startOf_looked hs he, hname]
  | started w p c pid h hp =>
    rw [startOf_started hs]
    rcases Scene.mem_withStarted.mp hm' with rfl | ⟨hm', hne, -⟩
    · exact .inr (Owners.begin_startOf_self _ _)
    · exact .inl ⟨m', hm', rfl, Owners.begin_startOf hne⟩
  | dropped d h hd hend =>
    refine .inl ⟨m', (List.mem_filter.mp hm').1, rfl, ?_⟩
    exact congrFun (startOf_of_ne hs fun _ _ _ _ _ heq => by cases heq) _

/-- What becomes of a record: it keeps its session and its start, or its process has been
    collected and no record is of that start any more. -/
theorem step_record (hs : Step x e y) (hx : Sound x.supervisor x.host x.registry)
    (hm : m ∈ x.supervisor.table) :
    (∃ m' ∈ y.supervisor.table, m'.session = m.session ∧
      y.registry.startOf m'.name = x.registry.startOf m.name) ∨
    m.isRunning = false ∧
      ∀ m' ∈ y.supervisor.table, y.registry.startOf m'.name ≠ x.registry.startOf m.name := by
  obtain ⟨h, hturned⟩ := step_turned hs
  generalize hz : (y.supervisor, h) = z at hturned
  have htable : z.1.table = y.supervisor.table := by rw [← hz]
  rw [← htable]
  cases hturned with
  | kept _ c h he => exact .inl ⟨m, hm, rfl, congrFun (startOf_of_ne hs he) _⟩
  | looked _ h he =>
    obtain ⟨m', hm', hlooked⟩ := Scene.drain_mem x.supervisor h hm
    have hname : m'.name = m.name := by rw [Managed.name, Managed.name, hlooked.session]
    refine .inl ⟨m', hm', hlooked.session, ?_⟩
    rw [startOf_looked hs he, hname]
  | started w p c pid h hp =>
    rw [startOf_started hs]
    by_cases hinbox : m.session.inbox = p.session.inbox
    · refine .inr ⟨Bool.eq_false_iff.mpr fun hrun => hp.free m hm hrun hinbox, fun m' hm' heq => ?_⟩
      rcases Scene.mem_withStarted.mp hm' with rfl | ⟨hm', hne, hinbox'⟩
      · exact Nat.ne_of_lt (hx.early m hm) (heq.symm.trans (Owners.begin_startOf_self _ _))
      · rw [Owners.begin_startOf hne] at heq
        rw [hx.starts m' hm' m hm heq] at hinbox'
        exact hinbox' hinbox
    · have hne : m.name ≠ p.session.name := fun hname => hinbox (by
        rw [hp.inbox, hx.tidy.inbox m hm, hname])
      exact .inl ⟨m, hx.tidy.mem_withStarted hp hm hinbox, rfl, Owners.begin_startOf hne⟩
  | dropped d h hd hend =>
    have hsame := startOf_of_ne hs fun _ _ _ _ _ heq => by cases heq
    by_cases hname : m.name = d.name
    · obtain rfl : d = m := by
        have hnamed := hx.tidy.named hm
        rw [hname, hd] at hnamed
        exact Option.some.inj hnamed
      refine .inr ⟨hend, fun m' hm' heq => ?_⟩
      obtain ⟨hm', hne⟩ := List.mem_filter.mp hm'
      rw [hsame] at heq
      rw [hx.starts m' hm' d hm heq] at hne
      exact bne_iff_ne.mp hne rfl
    · exact .inl ⟨m, List.mem_filter.mpr ⟨hm, bne_iff_ne.mpr hname⟩, rfl, congrFun hsame _⟩

/-- **What becomes of a session** that has been looked up: it keeps its record, or its process is
    collected and its record is dropped, and then no record is of that start ever again. -/
theorem follows_step (hs : Step x e y) (hx : Sound x.supervisor x.host x.registry)
    (ht : Told x.supervisor x.registry) (hf : Follows x name k session) :
    Follows y name k session := by
  have hgrow : x.registry.starts ≤ y.registry.starts := by
    rw [(step_startOf hs).2]
    cases e with
    | request r a => cases a <;> first | exact Nat.le_refl _ | exact Nat.le_succ _
    | look | world => exact Nat.le_refl _
  refine ⟨Nat.lt_of_lt_of_le hf.early hgrow, ?_⟩
  rcases hf.either with ⟨m, hm, rfl, rfl, rfl⟩ | ⟨hsome, hnone⟩
  · rcases step_record hs hx hm with ⟨m', hm', hsession, hstart⟩ | ⟨hend, hnone⟩
    · have hname : m'.name = m.name := by rw [Managed.name, Managed.name, hsession]
      rw [hname] at hstart
      exact .inl ⟨m', hm', hname, hsession, hstart⟩
    · exact .inr ⟨step_code hs hx (code_isSome ht hm hend), hnone⟩
  · refine .inr ⟨step_code hs hx hsome, fun m' hm' heq => ?_⟩
    rcases step_origin hs hm' with ⟨m, hm, -, hstart⟩ | hstart
    · exact hnone m hm (hstart.symm.trans heq)
    · exact Nat.ne_of_lt hf.early (heq.symm.trans hstart)

/-! ## Answers -/

/-- A report on a session is what looks at its PID file and its own patterns have come to. -/
def Judged (name : String) (k : Nat) (session : Session) (report : Report) : Prop :=
  ∃ x found, Reached name (x, .looking k session found) ∧ Complete x found ∧
    verdict x session found = .ok report

/-- The session that is asked about has been looked up, and a report is one on it. -/
def Fits (name : String) : State × Phase → Prop
  | (x, .looking k session _) => Follows x name k session
  | (x, .judged k session report) => Follows x name k session ∧ Judged name k session report
  | _ => True

theorem SeparateMove.separate {z z' : State × Phase} (hm : SeparateMove name z z')
    (hz : Separate z.1) : Separate z'.1 := by
  obtain ⟨hmove, hapart⟩ := hm
  cases hmove with
  | step x y p e hs => exact hz.step ⟨hs, hapart⟩
  | _ => exact hz

theorem Move.fits {z z' : State × Phase} (hm : Move name z z') (hz : Reached name z)
    (hx : Separate z.1) (hf : Fits name z) : Fits name z' := by
  have hsound := hx.reachable.sound
  cases hm with
  | step x y p e hs =>
    cases p with
    | looking => exact follows_step hs hsound hx.told hf
    | judged => exact ⟨follows_step hs hsound hx.told hf.1, hf.2⟩
    | asked | answered => trivial
  | found x m hm => exact follows_found hsound hm
  | look => exact hf
  | judge x k session found report hdone hreport => exact ⟨hf, x, found, hz, hdone, hreport⟩
  | unknown | failed | answer => trivial

/-- **The invariant of a status request**: the session that has been looked up is on record still,
    or has been collected and dropped. -/
theorem Reached.fits {z : State × Phase} (hz : Reached name z) : Separate z.1 ∧ Fits name z := by
  obtain ⟨x, hx, hr⟩ := hz
  induction hr with
  | refl => exact ⟨hx, trivial⟩
  | tail hr hm ih => exact ⟨hm.separate ih.1, hm.1.fits ⟨x, hx, hr⟩ ih.1 ih.2⟩

/-- The exit code that is found under the name is that of the session while its record is there. -/
theorem exitCodeOf_current (hx : Separate x) (hc : Current x name k session) :
    x.supervisor.exitCodeOf name = x.registry.code k := by
  obtain ⟨m, hm, rfl, -, rfl⟩ := hc
  rw [Supervisor.exitCodeOf, hx.reachable.sound.tidy.named hm, Option.bind_some]
  exact hx.told m hm

/-- The answer that describes the session of a start and no other: it has crashed with its exit
    code if its process has been collected, and else has the health that was found. -/
def ownAnswer (x : State) (name : String) (k : Nat) (report : Report) : Response :=
  match x.registry.code k with
  | some code => .status name .crashed report.attempts (some code)
  | none => .status name report.health report.attempts none

theorem statusAnswer_own (s : Supervisor) (x : State) (name : String) (k : Nat) (report : Report) :
    s.statusAnswer name report = ownAnswer x name k report ↔
      s.exitCodeOf name = x.registry.code k := by
  unfold Supervisor.statusAnswer ownAnswer
  constructor
  · intro h
    cases hcode : x.registry.code k with
    | none =>
      rw [hcode] at h
      exact (Response.status.inj h).2.2.2
    | some code =>
      rw [hcode] at h
      exact (Response.status.inj h).2.2.2
  · intro h
    rw [h]
    cases x.registry.code k <;> rfl

/-- **Whose status an answer is.** A name without a record is answered with an error, and so is a
    look that fails, whatever has become of the session. Otherwise the health is that of the
    session that was looked up. If its record is still there, the exit code is its own; if its
    process has been collected and its record dropped, the exit code is what is found under the
    name then, and the answer describes one session only if that happens to be the same. -/
theorem answer_describes {p : Phase} {a : Response} (hr : Reached name (x, p))
    (hp : ∀ b, p ≠ .answered b) (hm : Move name (x, p) (y, .answered a)) :
    y = x ∧
    ((p = .asked ∧ (∀ m ∈ x.supervisor.table, m.name ≠ name) ∧
        a = .error (RequestError.notFound name).message) ∨
      (∃ k session found e, p = .looking k session found ∧ verdict x session found = .error e ∧
        a = .error (RequestError.health e).message) ∨
      ∃ k session report, p = .judged k session report ∧ Judged name k session report ∧
        a = x.supervisor.statusAnswer name report ∧
        (Current x name k session ∧ a = ownAnswer x name k report ∨
          Past x k ∧ (a = ownAnswer x name k report ↔
            x.supervisor.exitCodeOf name = x.registry.code k))) := by
  obtain ⟨hx, hfits⟩ := hr.fits
  generalize hz : (y, Phase.answered a) = z at hm
  cases hm with
  | step _ y' _ e hs =>
    cases hz
    exact absurd rfl (hp a)
  | unknown _ e he =>
    cases hz
    obtain ⟨rfl, hnone⟩ := Supervisor.record_unknown he
    exact ⟨rfl, .inl ⟨rfl, hnone, rfl⟩⟩
  | found | look | judge => cases hz
  | failed _ k session found e hdone he =>
    cases hz
    exact ⟨rfl, .inr (.inl ⟨k, session, found, e, rfl, he, rfl⟩)⟩
  | answer _ k session report =>
    cases hz
    obtain ⟨hfollows, hjudged⟩ := hfits
    refine ⟨rfl, .inr (.inr ⟨k, session, report, rfl, hjudged, rfl, ?_⟩)⟩
    rcases hfollows.either with hcurrent | hpast
    · exact .inl ⟨hcurrent, (statusAnswer_own _ x name k report).mpr
        (exitCodeOf_current hx hcurrent)⟩
    · exact .inr ⟨hpast, statusAnswer_own _ x name k report⟩

/-- Files of which one stands in the place of a session's PID file. -/
def withPidFile (e : Entry) : Storage :=
  { now := 0, disk :=
      ⟨[(["s", "pids", "a-b.pid"], e), (["s", "pids"], .directory), (["s"], .directory)]⟩ }

/-- The process of a session has been collected, and its PID file cannot be read. The answer says
    neither that it has crashed nor that there is no such session. -/
theorem reaped_not_crashed :
    ∃ x m code y a, Reachable x ∧ m ∈ x.supervisor.table ∧ m.exitCode = some code ∧
      Step x (.request (.status m.name) a) y ∧ (∀ n, a ≠ .status m.name .crashed n (some code)) ∧
      a ≠ .error (RequestError.notFound m.name).message := by
  obtain ⟨g, halone⟩ := Owners.separate_alone (withPidFile .directory)
  obtain ⟨g', hruns⟩ := Owners.runs_collected g (.exit 3) (withPidFile .directory)
  have hx := (halone.runs hruns).reachable
  obtain ⟨m, hm, hcode, hanswer, hne⟩ :
      ∃ m ∈ (Owners.collected (.exit 3) (withPidFile .directory)).1.table, m.exitCode = some 3 ∧
        ((Owners.collected (.exit 3) (withPidFile .directory)).1.status m.name
          (Owners.collected (.exit 3) (withPidFile .directory)).2).1 =
            .error (RequestError.health .isADirectory).message ∧
        (RequestError.health .isADirectory).message ≠ (RequestError.notFound m.name).message := by
    decide +kernel
  -- from here on the scene is any of which these facts hold
  clear hruns
  generalize Owners.collected (.exit 3) (withPidFile .directory) = r at hx hm hanswer
  have hasked := Step.request r.1 r.2 g' ⟨⟨"n"⟩, fun _ => ""⟩ (.status m.name)
    fun w hw => by cases hw
  rw [Supervisor.handle, hanswer] at hasked
  refine ⟨_, m, 3, _, _, hx, hm, hcode, hasked, fun n heq => ?_, fun heq => ?_⟩
  · cases heq
  · exact hne (Response.error.inj heq)

/-- Steps while a request waits. -/
theorem runs_moves {es : List Event} (hr : Runs SeparateStep x es y) (p : Phase) :
    Relation.ReflTransGen (SeparateMove name) (x, p) (y, p) := by
  induction hr with
  | nil => exact .refl
  | cons hs _ ih => exact .head ⟨.step _ _ p _ hs.step, hs.apart⟩ ih

/-- A session without a record any more was collected before its record was dropped. -/
theorem Reached.past {report : Report} (hz : Reached name (x, .judged k session report))
    (hnone : x.supervisor.table = []) : Past x k := by
  obtain ⟨-, hfollows, -⟩ := hz.fits
  rcases hfollows.either with ⟨m, hm, -⟩ | hpast
  · rw [hnone] at hm
    cases hm
  · exact hpast

/-- The file in which a process has written its number. -/
def written : Storage := withPidFile (.file (Utf8.encodeChars ['4', '0', '0', '0']))

/-- A session is found alive. Then its process ends and is collected, and its record is removed.
    The answer says alive, with no exit code. -/
theorem answer_describes_removed :
    ∃ x y name k session report a pid n, Reached name (x, .judged k session report) ∧
      Move name (x, .judged k session report) (y, .answered a) ∧ Past x k ∧
      a = .status name (.alive pid) n none ∧ a ≠ ownAnswer x name k report := by
  obtain ⟨g, halone⟩ := Owners.separate_alone written
  obtain ⟨g', hruns⟩ := Owners.runs_collected g (.exit 3) written
  obtain ⟨m, -, hm, hreport⟩ : ∃ m ∈ Scene.alone.1.table, Scene.alone.1.record "a b" = .ok m ∧
      Scene.alone.1.health { Scene.alone.2 with storage := written } m.session
        Scene.alone.1.config.retryPolicy = .ok ⟨.alive 4000, 1⟩ := by decide +kernel
  have hgone : ((Owners.collected (.exit 3) written).1.remove "a b"
      (Owners.collected (.exit 3) written).2).2.1.table = [] := by decide +kernel
  -- from here on the scenes are any of which these facts hold
  generalize Owners.collected (.exit 3) written = r at hruns hgone
  generalize Scene.alone = z at halone hruns hm hreport
  have hremove := Step.request r.1 r.2 g' ⟨⟨"n"⟩, fun _ => ""⟩ (.remove "a b")
    fun w hw => by cases hw
  have hapart : Apart (r.1.remove "a b" r.2).2.1.table := by
    rw [hgone]
    exact .nil
  obtain ⟨x, hnone, hz⟩ : ∃ x : State, x.supervisor.table = [] ∧
      Reached "a b" (x, .judged (g.startOf "a b") m.session ⟨.alive 4000, 1⟩) :=
    ⟨_, hgone, .intro _ halone ((judged_moves halone.apart hm hreport).trans
      (runs_moves (hruns.concat ⟨hremove, hapart⟩) _))⟩
  have hanswer : Move "a b" _ _ := .answer x (g.startOf "a b") m.session ⟨.alive 4000, 1⟩
  have hpast := hz.past hnone
  have hcode : x.supervisor.exitCodeOf "a b" = none := by
    rw [Supervisor.exitCodeOf, hnone]
    rfl
  refine ⟨x, x, _, _, _, _, _, 4000, 1, hz, hanswer, hpast, ?_, fun hown => ?_⟩
  · rw [Supervisor.statusAnswer, hcode]
    rfl
  · obtain ⟨-, ⟨hp, -⟩ | ⟨_, _, _, _, hp, -⟩ | ⟨_, _, _, hp, -, -, hcases⟩⟩ :=
      answer_describes hz (fun _ hp => by cases hp) hanswer
    · cases hp
    · cases hp
    · cases hp
      rcases hcases with ⟨⟨m, hmem, -⟩, -⟩ | ⟨-, hiff⟩
      · rw [hnone] at hmem
        cases hmem
      · have hsome := hpast.1
        rw [← hiff.mp hown, hcode] at hsome
        cases hsome

end Inquiry

end AgentSupervisor
