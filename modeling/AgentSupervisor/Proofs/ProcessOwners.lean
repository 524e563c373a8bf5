import AgentSupervisor.Proofs.Reaping

/-!
# Whose process numbers they are

A process keeps its number until it has been collected. After that the system may give the number
to anyone, also to a process that has nothing to do with the supervisor. A register of all starts
says who has a number. A running session is one whose process still has its own, unless a process
has been collected of which nothing was told: its session counts as running, and a signal for it
goes to whoever has the number by then.

* `Registry`        : who has which number, and how the processes of starts have ended;
* `Sound`           : the table and the register agree;
* `Step.sound`      : every step keeps that;
* `Reachable.sound` : and so does every run from an opening on;
* `Separate`        : the runs in which no two running sessions have one number on record.
-/

namespace AgentSupervisor

/-! ## The register -/

/-- Who has a process number. -/
inductive Holder where
  /-- the process that the supervisor started as number so much -/
  | child (start : Nat)
  | stranger
  deriving DecidableEq

/-- A register of all processes that the supervisor has started. -/
structure Registry where
  /-- how many starts there have been -/
  starts : Nat := 0
  /-- the process number of a start -/
  number : Nat → UInt32 := fun _ => 0
  /-- who has a process number now -/
  holder : UInt32 → Option Holder := fun _ => none
  /-- the start that belongs to the record of a name -/
  startOf : String → Nat := fun _ => 0
  /-- how the process of a start ended, once it has been collected -/
  fate : Nat → Option Termination := fun _ => none

namespace Registry

/-- The exit code that was told of the process of a start when it was collected. -/
def code (g : Registry) (k : Nat) : Option Int32 := (g.fate k).bind Termination.code?

/-- A process has been collected of which nothing was told. -/
def Lost (g : Registry) : Prop := ∃ k t, g.fate k = some t ∧ t.code? = none

/-- The process of a record has the number that is on record. -/
def Owns (g : Registry) (m : Managed) : Prop := g.holder m.pid = some (.child (g.startOf m.name))

/-- The process of a record has been collected. -/
def Collected (g : Registry) (m : Managed) : Prop := (g.fate (g.startOf m.name)).isSome = true

/-- The register when a supervisor is opened: the processes that are there are strangers. -/
def opening (h : Host) : Registry where
  holder q := if (h.other? q).isSome then some .stranger else none

/-- A process is started for a name. -/
def begin (g : Registry) (name : String) (pid : UInt32) : Registry where
  starts := g.starts + 1
  number k := if k = g.starts then pid else g.number k
  holder q := if q = pid then some (.child g.starts) else g.holder q
  startOf n := if n = name then g.starts else g.startOf n
  fate := g.fate

/-- An answer says whether a process has been started. -/
def note (g : Registry) : Response → Registry
  | .spawned name pid _ _ => g.begin name pid
  | _ => g

/-- The process of a number has gone from the host. -/
def isGone (h h' : Host) (q : UInt32) : Bool := (h.child? q).isSome && (h'.child? q).isNone

/-- The processes that have gone from the host have been collected, and their numbers are free. -/
def collect (g : Registry) (h h' : Host) : Registry :=
  { g with
    holder := fun q => if isGone h h' q then none else g.holder q
    fate := fun k =>
      if g.holder (g.number k) = some (.child k) ∧ isGone h h' (g.number k) = true then
        h.endOf? (g.number k)
      else g.fate k }

/-- A number is given to someone, or to nobody. -/
def give (g : Registry) (pid : UInt32) (who : Option Holder) : Registry :=
  { g with holder := fun q => if q = pid then who else g.holder q }

variable {g : Registry} {h h' : Host}

theorem note_of_ne {a : Response} (ha : ∀ name pid agent mode, a ≠ .spawned name pid agent mode) :
    g.note a = g := by
  cases a <;> first | rfl | exact absurd rfl (ha _ _ _ _)

theorem collect_of_stays (hstays : ∀ q, isGone h h' q = false) : g.collect h h' = g := by
  unfold collect
  simp only [hstays, Bool.false_eq_true, if_false, and_false]

theorem isSome_of_gone {q : UInt32} (hg : isGone h h' q = true) : (h'.child? q).isSome = false := by
  obtain ⟨-, hnone⟩ := Bool.and_eq_true_iff.mp hg
  rw [Option.isNone_iff_eq_none.mp hnone]
  rfl

theorem isSome_of_not_gone (hs : h.Shrinks h') {q : UInt32} (hg : isGone h h' q = false) :
    (h'.child? q).isSome = (h.child? q).isSome := by
  cases hc : h.child? q with
  | none => rw [hs.gone hc]
  | some c =>
    rw [isGone, hc, Option.isSome_some, Bool.true_and] at hg
    rw [Option.isSome_some, ← Bool.not_not (h'.child? q).isSome, Option.not_isSome, hg]
    rfl

/-- How a process that has gone has ended is on record. -/
theorem fate_collect {k : Nat} {q : UInt32} (hnumber : g.number k = q)
    (hholder : g.holder q = some (.child k)) (hg : isGone h h' q = true) :
    (g.collect h h').fate k = h.endOf? q := by
  subst hnumber
  exact if_pos ⟨hholder, hg⟩

/-- A process that has no number any more is not collected. -/
theorem fate_collect_of_not_held {k : Nat} (hnot : g.holder (g.number k) ≠ some (.child k)) :
    (g.collect h h').fate k = g.fate k := if_neg fun hboth => hnot hboth.1

/-- Nor is one that is still there. -/
theorem fate_collect_of_stays {k : Nat} (hg : isGone h h' (g.number k) = false) :
    (g.collect h h').fate k = g.fate k := if_neg fun hboth => by
  rw [hg] at hboth
  cases hboth.2

theorem holder_collect_of_stays {q : UInt32} (hg : isGone h h' q = false) :
    (g.collect h h').holder q = g.holder q := if_neg (by rw [hg]; exact Bool.false_ne_true)

theorem holder_collect {q : UInt32} (hg : isGone h h' q = true) :
    (g.collect h h').holder q = none := if_pos hg

/-- Nobody comes by a number because a process is collected. -/
theorem holder_of_collect {q : UInt32} {who : Holder}
    (hq : (g.collect h h').holder q = some who) :
    isGone h h' q = false ∧ g.holder q = some who := by
  cases hg : isGone h h' q with
  | true =>
    rw [holder_collect hg] at hq
    cases hq
  | false => exact ⟨rfl, (holder_collect_of_stays hg).symm.trans hq⟩

theorem isGone_of_keeps (hk : h.Keeps h') (q : UInt32) :
    isGone h h' q = false ∧ isGone h' h q = false := by
  have hrel := hk.child? q
  unfold isGone
  generalize h.child? q = c at hrel
  generalize h'.child? q = c' at hrel
  cases hrel <;> exact ⟨rfl, rfl⟩

end Registry

/-! ## Steps -/

/-- Nobody has a number. -/
structure Host.IsFree (h : Host) (q : UInt32) : Prop where
  child : h.child? q = none
  other : h.other? q = none

namespace Owners

open Supervisor (Handled Planned Apart HasRunning)
open Scene (Tidy Event)
open Registry (isGone)

/-- A supervisor with its host, and the register. -/
structure State where
  supervisor : Supervisor
  host : Host
  registry : Registry

/-- The supervisor and its host. -/
def State.scene (x : State) : Scene := (x.supervisor, x.host)

/-- The host when a request looks at the processes: a status request has waited before that. -/
def paused (s : Supervisor) (h : Host) : Request → Host
  | .status name =>
    match s.table.named? name with
    | some m => s.waited h m
    | none => h
  | _ => h

/-- A step. Nothing is assumed of the numbers that the system gives to new processes, except that
    nobody has them. -/
inductive Step : State → Event → State → Prop where
  | request (s : Supervisor) (h : Host) (g : Registry) (draw : Draw) (r : Request)
      (hfree : ∀ w, r = .spawn w → h.IsFree h.nextPid) :
      Step ⟨s, h, g⟩ (.request r (s.handle draw h r).1)
        ⟨(s.handle draw h r).2.1, (s.handle draw h r).2.2,
          (g.note (s.handle draw h r).1).collect (paused s h r) (s.handle draw h r).2.2⟩
  | starved (s s' : Supervisor) (h h' : Host) (g : Registry) (draw : Draw) (w : SpawnRequest)
      (p : Prepared) (e : String) (hr : s.ready w draw h = (.ok p, s', h')) :
      Step ⟨s, h, g⟩ (.request (.spawn w) (.error e)) ⟨s', h', g⟩
  | look (s : Supervisor) (h : Host) (g : Registry) :
      Step ⟨s, h, g⟩ .look ⟨(s.drain h).1, (s.drain h).2, g.collect h (s.drain h).2⟩
  /-- processes go on and end, and anything else on the host changes -/
  | goes (s : Supervisor) (h h' : Host) (g : Registry) (hk : h.Keeps h') :
      Step ⟨s, h, g⟩ .world ⟨s, h', g⟩
  /-- a process that the supervisor has nothing to do with is given a free number -/
  | arrives (s : Supervisor) (h : Host) (g : Registry) (o : Other) (hfree : h.IsFree o.pid) :
      Step ⟨s, h, g⟩ .world
        ⟨s, { h with others := h.others ++ [o] }, g.give o.pid (some .stranger)⟩
  /-- such a process goes away -/
  | leaves (s : Supervisor) (h : Host) (g : Registry) (q : UInt32)
      (hq : g.holder q = some .stranger) :
      Step ⟨s, h, g⟩ .world
        ⟨s, { h with others := h.others.filter fun o => o.pid != q }, g.give q none⟩

variable {x y z : State} {e : Event} {es : List Event} {s : Supervisor} {h h' : Host}
  {g : Registry} {m m' : Managed} {q : UInt32} {k : Nat}

/-- Every step is one of a supervisor and its host. -/
theorem Step.scene (hs : Step x e y) : Scene.Step x.scene e y.scene := by
  cases hs with
  | request s h g draw r => exact .request s h draw r
  | starved s s' h h' g draw w p e hr => exact .starved s s' h h' draw w p e hr
  | look s h => exact .look s h
  | goes s h h' => exact .world s h h'
  | arrives s h => exact .world s h _
  | leaves s h => exact .world s h _

/-! ## The invariant -/

/-- The table and the register agree: a running session is one whose process has its number, or
    has been collected in a state in which one has been lost, and every process that has not been
    collected is that of a running session. -/
structure Sound (s : Supervisor) (h : Host) (g : Registry) : Prop where
  tidy : Tidy s
  nodup : (h.children.map Child.pid).Nodup
  children : ∀ q, (h.child? q).isSome = true ↔ ∃ k, g.holder q = some (.child k)
  strangers : ∀ q, (h.other? q).isSome = true ↔ g.holder q = some .stranger
  child : ∀ q k, g.holder q = some (.child k) → g.number k = q ∧ k < g.starts ∧ g.fate k = none
  later : ∀ k, g.starts ≤ k → g.fate k = none
  running : ∀ m ∈ s.table, m.isRunning = true → g.Owns m ∨ g.Collected m ∧ g.Lost
  recorded : ∀ q k, g.holder q = some (.child k) →
    ∃ m ∈ s.table, m.isRunning = true ∧ m.pid = q ∧ g.startOf m.name = k
  early : ∀ m ∈ s.table, g.startOf m.name < g.starts
  starts : ∀ m ∈ s.table, ∀ m' ∈ s.table, g.startOf m.name = g.startOf m'.name → m = m'

/-- While no process has been lost, running sessions have processes of their own. -/
theorem Sound.apart (hs : Sound s h g) (hlost : ¬ g.Lost) : Apart s.table := by
  refine hs.tidy.apart.imp_of_mem fun {a b} ha hb hne harun hbrun heq => hne ?_
  have howns (m : Managed) (hm : m ∈ s.table) (hrun : m.isRunning = true) : g.Owns m :=
    (hs.running m hm hrun).resolve_right fun hboth => hlost hboth.2
  have hholder := howns a ha harun
  rw [Registry.Owns, heq, howns b hb hbrun] at hholder
  have hstart := Holder.child.inj (Option.some.inj hholder)
  rw [hs.starts b hb a ha hstart]

/-- A number that nobody has on the host is nobody's in the register. -/
theorem Sound.holder_free (hs : Sound s h g) (hfree : h.IsFree q) : g.holder q = none := by
  cases hq : g.holder q with
  | none => rfl
  | some who =>
    cases who with
    | child k =>
      have hchild := (hs.children q).mpr ⟨k, hq⟩
      rw [hfree.child] at hchild
      cases hchild
    | stranger =>
      have hother := (hs.strangers q).mpr hq
      rw [hfree.other] at hother
      cases hother

/-- What happens to processes that stay where they are does not matter. -/
theorem Sound.keeps (hs : Sound s h g) (hk : h.Keeps h') : Sound s h' g where
  tidy := hs.tidy
  nodup := by rw [hk.pids]; exact hs.nodup
  children q := by
    rw [← hs.children q]
    have hrel := hk.child? q
    generalize h.child? q = c at hrel
    generalize h'.child? q = c' at hrel
    cases hrel <;> exact Iff.rfl
  strangers q := by rw [hk.other? q, hs.strangers q]
  child := hs.child
  later := hs.later
  running := hs.running
  recorded := hs.recorded
  early := hs.early
  starts := hs.starts

/-- Nor do records of ended sessions that are dropped. -/
theorem Sound.sublist {s' : Supervisor} (hs : Sound s h g) (hstate : s'.state = s.state)
    (hsub : s'.table.Sublist s.table)
    (hkept : ∀ m ∈ s.table, m.isRunning = true → m ∈ s'.table) : Sound s' h g where
  tidy := hs.tidy.sublist hstate hsub
  nodup := hs.nodup
  children := hs.children
  strangers := hs.strangers
  child := hs.child
  later := hs.later
  running m hm := hs.running m (hsub.subset hm)
  recorded q k hk := by
    obtain ⟨m, hm, hrun, hrest⟩ := hs.recorded q k hk
    exact ⟨m, hkept m hm hrun, hrun, hrest⟩
  early m hm := hs.early m (hsub.subset hm)
  starts m hm m' hm' := hs.starts m (hsub.subset hm) m' (hsub.subset hm')

theorem Sound.counters (hs : Sound s h g) (k : NameCounters) :
    Sound { s with counters := k } h g := hs.sublist rfl (.refl _) fun _ hm _ => hm

theorem Sound.dropped (hs : Sound s h g) (hm : s.table.named? m.name = some m)
    (hend : m.isRunning = false) : Sound (s.dropped m.name) h g := by
  refine hs.sublist rfl List.filter_sublist fun m' hm' hrun => ?_
  refine List.mem_filter.mpr ⟨hm', bne_iff_ne.mpr fun hname => ?_⟩
  have hnamed := hs.tidy.named hm'
  rw [hname, hm] at hnamed
  rw [← Option.some.inj hnamed, hend] at hrun
  cases hrun

/-! ## Looking -/

/-- A look takes the processes of running sessions that have ended, and no others. -/
theorem isGone_drain (s : Supervisor) (h : Host) (q : UInt32) :
    isGone h (s.drain h).2 q = true ↔ HasRunning s.table q ∧ (h.endOf? q).isSome = true := by
  obtain ⟨hnot, hhas⟩ := Supervisor.drainAll_child? s.table h q
  have hdrain : (s.drain h).2 = (Supervisor.drainAll s.table h).2 := rfl
  unfold isGone
  rw [hdrain, Bool.and_eq_true]
  by_cases hq : HasRunning s.table q
  · rw [hhas hq]
    cases hend : h.endOf? q with
    | none => cases h.child? q <;> simp
    | some t =>
      obtain ⟨c, hc, -⟩ := Option.bind_eq_some_iff.mp hend
      simp [hc, hq]
  · rw [hnot hq]
    cases h.child? q <;> simp [hq]

/-- Every record after a look comes from one before it, and has the exit code that was told. -/
theorem mem_drain_coded (hapart : Apart s.table) (hm' : m' ∈ (s.drain h).1.table) :
    ∃ m ∈ s.table, Supervisor.Coded h m m' := by
  obtain ⟨i, hi, rfl⟩ := List.getElem_of_mem hm'
  have hcoded := List.forall₂_iff_get.mp
    (Supervisor.drainAll_codes s.table h h hapart fun _ _ _ => rfl)
  have hi' : i < s.table.length := by
    rw [hcoded.1]
    exact hi
  exact ⟨_, List.getElem_mem hi', hcoded.2 i hi' hi⟩

theorem name_of_session (hsession : m'.session = m.session) : m'.name = m.name := by
  rw [Managed.name, Managed.name, hsession]

/-- What has been collected once is not collected again. -/
theorem Sound.fate_collect (hs : Sound s h g) {t : Termination} (hk : g.fate k = some t)
    (h' : Host) : (g.collect h h').fate k = some t := by
  refine (Registry.fate_collect_of_not_held fun hholder => ?_).trans hk
  rw [(hs.child _ k hholder).2.2] at hk
  cases hk

theorem Sound.lost_collect (hs : Sound s h g) (hlost : g.Lost) (h' : Host) :
    (g.collect h h').Lost := by
  obtain ⟨k, t, hk, ht⟩ := hlost
  exact ⟨k, t, hs.fate_collect hk h', ht⟩

theorem Sound.collected_collect (hs : Sound s h g) (hm : g.Collected m) (h' : Host) :
    (g.collect h h').Collected m := by
  obtain ⟨t, ht⟩ := Option.isSome_iff_exists.mp hm
  exact Option.isSome_iff_exists.mpr ⟨t, hs.fate_collect ht h'⟩

theorem Sound.drained_children (hs : Sound s h g) (q : UInt32) :
    ((s.drain h).2.child? q).isSome = true ↔
      ∃ k, (g.collect h (s.drain h).2).holder q = some (.child k) := by
  have hshrinks : h.Shrinks (s.drain h).2 := (Supervisor.drainAll_looked s.table h).2
  cases hg : isGone h (s.drain h).2 q with
  | true =>
    rw [Registry.isSome_of_gone hg, Registry.holder_collect hg]
    exact iff_of_false Bool.false_ne_true fun ⟨k, hk⟩ => by cases hk
  | false =>
    rw [Registry.isSome_of_not_gone hshrinks hg, Registry.holder_collect_of_stays hg,
      hs.children q]

theorem Sound.drained_strangers (hs : Sound s h g) (q : UInt32) :
    ((s.drain h).2.other? q).isSome = true ↔
      (g.collect h (s.drain h).2).holder q = some .stranger := by
  have hothers : (s.drain h).2.other? q = h.other? q := by
    rw [Host.other?, Host.other?, ← Supervisor.drainAll_others s.table h]
    rfl
  rw [hothers, hs.strangers q]
  refine ⟨fun hq => (Registry.holder_collect_of_stays ?_).trans hq,
    fun hq => (Registry.holder_of_collect hq).2⟩
  -- a stranger's number is that of no process that could be collected
  refine Bool.eq_false_iff.mpr fun hg => ?_
  obtain ⟨k, hk⟩ := (hs.children q).mp (Bool.and_eq_true_iff.mp hg).1
  rw [hq] at hk
  cases hk

theorem Sound.drained_child (hs : Sound s h g)
    (hk : (g.collect h (s.drain h).2).holder q = some (.child k)) :
    g.number k = q ∧ k < g.starts ∧ (g.collect h (s.drain h).2).fate k = none := by
  obtain ⟨hg, hk⟩ := Registry.holder_of_collect hk
  obtain ⟨hnumber, hlt, hnone⟩ := hs.child q k hk
  refine ⟨hnumber, hlt, ?_⟩
  rw [Registry.fate_collect_of_stays (by rw [hnumber]; exact hg), hnone]

/-- What a look makes of the process that a running session has: it still has its number, or it
    has been collected. -/
theorem Sound.drained_owns (hs : Sound s h g) (hm : m ∈ s.table) (hrun : m.isRunning = true)
    (howns : g.Owns m) :
    (h.endOf? m.pid = none ∧ (g.collect h (s.drain h).2).Owns m) ∨
      ∃ t, h.endOf? m.pid = some t ∧
        (g.collect h (s.drain h).2).fate (g.startOf m.name) = some t := by
  cases hend : h.endOf? m.pid with
  | none =>
    refine .inl ⟨rfl, (Registry.holder_collect_of_stays ?_).trans howns⟩
    refine Bool.eq_false_iff.mpr fun hg => ?_
    have hsome := ((isGone_drain s h m.pid).mp hg).2
    rw [hend] at hsome
    cases hsome
  | some t =>
    have hg := (isGone_drain s h m.pid).mpr ⟨⟨m, hm, hrun, rfl⟩, by rw [hend]; rfl⟩
    have hfate := Registry.fate_collect (hs.child _ _ howns).1 howns hg
    exact .inr ⟨t, rfl, hfate.trans hend⟩

/-- A session that is running after a look still has its process, unless it has been collected and
    one has been lost. -/
theorem Sound.drained_running (hs : Sound s h g) (hm' : m' ∈ (s.drain h).1.table)
    (hrun' : m'.isRunning = true) :
    (g.collect h (s.drain h).2).Owns m' ∨
      (g.collect h (s.drain h).2).Collected m' ∧ (g.collect h (s.drain h).2).Lost := by
  have hsame {m : Managed} (hsession : m'.session = m.session) (hpid : m'.pid = m.pid)
      {g' : Registry} : (g'.Owns m' ↔ g'.Owns m) ∧ (g'.Collected m' ↔ g'.Collected m) := by
    unfold Registry.Owns Registry.Collected
    rw [hpid, name_of_session hsession]
    exact ⟨Iff.rfl, Iff.rfl⟩
  by_cases hlost : (g.collect h (s.drain h).2).Lost
  · obtain ⟨m, hm, hlooked⟩ := Scene.mem_drain s h hm'
    obtain ⟨hsession, hpid, hrun⟩ : m'.session = m.session ∧ m'.pid = m.pid ∧
        m.isRunning = true := by
      cases hlooked with
      | ended he => exact ⟨rfl, rfl, hrun'⟩
      | running _ hr hs hp => exact ⟨hs, hp, hr⟩
      | reaped _ _ _ hr hs hp => exact ⟨hs, hp, hr⟩
    rw [(hsame hsession hpid).1, (hsame hsession hpid).2]
    rcases hs.running m hm hrun with howns | ⟨hcollected, -⟩
    · rcases hs.drained_owns hm hrun howns with ⟨-, howns'⟩ | ⟨t, -, hfate⟩
      · exact .inl howns'
      · exact .inr ⟨Option.isSome_iff_exists.mpr ⟨t, hfate⟩, hlost⟩
    · exact .inr ⟨hs.collected_collect hcollected _, hlost⟩
  · -- nothing has been lost, so the look has told the exit codes of all that it has collected
    have hbefore : ¬ g.Lost := fun hbefore => hlost (hs.lost_collect hbefore _)
    obtain ⟨m, hm, hc⟩ := mem_drain_coded (hs.apart hbefore) hm'
    obtain ⟨hnone, hcode⟩ := Option.or_eq_none_iff.mp
      (hc.code.symm.trans (Option.isNone_iff_eq_none.mp hrun'))
    have hrun : m.isRunning = true := Option.isNone_iff_eq_none.mpr hnone
    have howns := (hs.running m hm hrun).resolve_right fun hboth => hbefore hboth.2
    rw [(hsame hc.session hc.pid).1]
    rcases hs.drained_owns hm hrun howns with ⟨-, howns'⟩ | ⟨t, hend, hfate⟩
    · exact .inl howns'
    · rw [Host.codeOf?, hend] at hcode
      exact absurd ⟨_, t, hfate, hcode⟩ hlost

/-- A process that has not been collected by a look is still that of a running session. -/
theorem Sound.drained_recorded (hs : Sound s h g)
    (hk : (g.collect h (s.drain h).2).holder q = some (.child k)) :
    ∃ m' ∈ (s.drain h).1.table, m'.isRunning = true ∧ m'.pid = q ∧ g.startOf m'.name = k := by
  obtain ⟨hg, hk⟩ := Registry.holder_of_collect hk
  obtain ⟨m, hm, hrun, rfl, rfl⟩ := hs.recorded q k hk
  obtain ⟨m', hm', hlooked⟩ := Scene.drain_mem s h hm
  cases hlooked with
  | ended he => exact ⟨m, hm', hrun, rfl, rfl⟩
  | running _ _ hsession hpid hrun' =>
    exact ⟨m', hm', hrun', hpid, by rw [name_of_session hsession]⟩
  | reaped _ c code _ _ _ _ hc _ hgone =>
    rw [isGone, hc, hgone] at hg
    cases hg

/-- **A look** collects processes, and it is put on record which and how they ended. -/
theorem Sound.drained (hs : Sound s h g) :
    Sound (s.drain h).1 (s.drain h).2 (g.collect h (s.drain h).2) where
  tidy := hs.tidy.looked h
  nodup := hs.nodup.sublist (Supervisor.drainAll_pids s.table h)
  children := hs.drained_children
  strangers := hs.drained_strangers
  child _ _ hk := hs.drained_child hk
  later k hk := by
    refine (Registry.fate_collect_of_not_held fun hholder => ?_).trans (hs.later k hk)
    exact absurd (hs.child _ k hholder).2.1 (Nat.not_lt.mpr hk)
  running m' hm' hrun := hs.drained_running hm' hrun
  recorded _ _ hk := hs.drained_recorded hk
  early m' hm' := by
    obtain ⟨m, hm, hlooked⟩ := Scene.mem_drain s h hm'
    rw [name_of_session hlooked.session]
    exact hs.early m hm
  starts a' ha' b' hb' hab := by
    obtain ⟨a, ha, hla⟩ := Scene.mem_drain s h ha'
    obtain ⟨b, hb, hlb⟩ := Scene.mem_drain s h hb'
    rw [name_of_session hla.session, name_of_session hlb.session] at hab
    have hnames : a'.name = b'.name := by
      rw [name_of_session hla.session, name_of_session hlb.session, hs.starts a ha b hb hab]
    have hfound := (hs.tidy.looked h).named ha'
    rw [hnames, (hs.tidy.looked h).named hb'] at hfound
    exact (Option.some.inj hfound).symm

/-! ## Starting -/

theorem pid_not_mem (hnone : h.child? q = none) : q ∉ h.children.map Child.pid := by
  intro hmem
  obtain ⟨c, hc, hpid⟩ := List.mem_map.mp hmem
  have hnot := List.find?_eq_none.mp hnone c hc
  simp [hpid] at hnot

theorem begin_holder {name : String} {pid : UInt32} (hne : q ≠ pid) :
    (g.begin name pid).holder q = g.holder q := if_neg hne

theorem begin_holder_self (name : String) (pid : UInt32) :
    (g.begin name pid).holder pid = some (.child g.starts) := if_pos rfl

theorem begin_startOf {name n : String} {pid : UInt32} (hne : n ≠ name) :
    (g.begin name pid).startOf n = g.startOf n := if_neg hne

theorem begin_startOf_self (name : String) (pid : UInt32) :
    (g.begin name pid).startOf name = g.starts := if_pos rfl

/-- The register after a start. -/
theorem Sound.begin_child (hs : Sound s h g) {name : String} {pid : UInt32}
    (hk : (g.begin name pid).holder q = some (.child k)) :
    (g.begin name pid).number k = q ∧ k < g.starts + 1 ∧ g.fate k = none := by
  by_cases hq : q = pid
  · rw [hq, begin_holder_self] at hk
    obtain rfl := Holder.child.inj (Option.some.inj hk)
    exact ⟨(if_pos rfl).trans hq.symm, Nat.lt_succ_self _, hs.later _ (Nat.le_refl _)⟩
  · rw [begin_holder hq] at hk
    obtain ⟨hnumber, hlt, hnone⟩ := hs.child q k hk
    exact ⟨(if_neg (Nat.ne_of_lt hlt)).trans hnumber, Nat.lt_succ_of_lt hlt, hnone⟩

/-- A new record is the only one of its start. -/
theorem Sound.startOf_ne (hs : Sound s h g) {name : String} {pid : UInt32} (hm : m ∈ s.table)
    (hne : m.name ≠ name) : (g.begin name pid).startOf m.name ≠ (g.begin name pid).startOf name := by
  rw [begin_startOf hne, begin_startOf_self]
  exact Nat.ne_of_lt (hs.early m hm)

/-- A start changes nothing about the processes of other records. -/
theorem Sound.begin_running (hs : Sound s h g) {name : String} {pid : UInt32}
    (hfree : h.IsFree pid) (hm : m ∈ s.table) (hrun : m.isRunning = true) (hne : m.name ≠ name) :
    (g.begin name pid).Owns m ∨ (g.begin name pid).Collected m ∧ (g.begin name pid).Lost := by
  rw [Registry.Owns, Registry.Collected, begin_startOf hne]
  rcases hs.running m hm hrun with howns | hcollected
  · refine .inl ((begin_holder fun heq => ?_).trans howns)
    rw [Registry.Owns, heq, hs.holder_free hfree] at howns
    cases howns
  · exact .inr hcollected

/-- After a start every process is on record. -/
theorem Sound.begin_recorded (hs : Sound s h g) {p : Prepared} (hp : s.Planned p) {pid : UInt32}
    {k : Nat} (hk : (g.begin p.session.name pid).holder q = some (.child k)) :
    ∃ m ∈ s.withStarted p pid, m.isRunning = true ∧ m.pid = q ∧
      (g.begin p.session.name pid).startOf m.name = k := by
  by_cases hq : q = pid
  · rw [hq, begin_holder_self] at hk
    obtain rfl := Holder.child.inj (Option.some.inj hk)
    exact ⟨_, Scene.mem_withStarted.mpr (.inl rfl), rfl, hq.symm, begin_startOf_self _ pid⟩
  · rw [begin_holder hq] at hk
    obtain ⟨m, hm, hrun, hmpid, hstart⟩ := hs.recorded q k hk
    have hkept : m ∈ s.withStarted p pid := hs.tidy.mem_withStarted hp hm (hp.free m hm hrun)
    refine ⟨m, hkept, hrun, hmpid, ?_⟩
    rcases Scene.mem_withStarted.mp hkept with rfl | ⟨-, hne, -⟩
    · exact absurd hmpid.symm hq
    · rw [begin_startOf hne, hstart]

/-- After a start no two records have one start. -/
theorem Sound.begin_starts (hs : Sound s h g) {p : Prepared} {pid : UInt32} {a b : Managed}
    (ha : a ∈ s.withStarted p pid) (hb : b ∈ s.withStarted p pid)
    (hab : (g.begin p.session.name pid).startOf a.name =
      (g.begin p.session.name pid).startOf b.name) : a = b := by
  rcases Scene.mem_withStarted.mp ha with rfl | ⟨ha, hane, -⟩
  · rcases Scene.mem_withStarted.mp hb with rfl | ⟨hb, hbne, -⟩
    · rfl
    · exact absurd hab.symm (hs.startOf_ne hb hbne)
  · rcases Scene.mem_withStarted.mp hb with rfl | ⟨hb, hbne, -⟩
    · exact absurd hab (hs.startOf_ne ha hane)
    · rw [begin_startOf hane, begin_startOf hbne] at hab
      exact hs.starts a ha b hb hab

/-- **A start** gives a free number to the process of the new session. -/
theorem Sound.started (hs : Sound s h g) {p : Prepared} (hp : s.Planned p) {k : NameCounters}
    {pid : UInt32} {vars : Variables} (hfree : h.IsFree h.nextPid)
    (hspawn : h.spawn s.dir p.argv p.size vars = .ok (pid, h')) :
    Sound { s with counters := k, table := s.withStarted p pid } h'
      (g.begin p.session.name pid) := by
  obtain ⟨hpid, -, hchildren⟩ := Host.spawn_ok hspawn
  have hothers := Host.spawn_others hspawn
  rw [← hpid] at hfree
  refine ⟨hs.tidy.started hp, ?_, fun q => ?_, fun q => ?_, fun q k hk => hs.begin_child hk,
    fun k hk => hs.later k (Nat.le_of_succ_le hk), fun m hm hrun => ?_,
    fun q k => hs.begin_recorded hp, fun m hm => ?_, fun a ha b hb => hs.begin_starts ha hb⟩
  · rw [hchildren, ← hpid, List.map_append, List.map_singleton, List.nodup_append]
    refine ⟨hs.nodup, List.pairwise_singleton _ _, fun q hq q' hq' heq => ?_⟩
    obtain rfl : q = pid := heq.trans (List.mem_singleton.mp hq')
    exact pid_not_mem hfree.child hq
  · rw [Host.child?_spawn hspawn q]
    by_cases hq : q = pid
    · rw [hq, begin_holder_self, hfree.child, if_pos rfl]
      exact iff_of_true rfl ⟨_, rfl⟩
    · rw [begin_holder hq, if_neg (Ne.symm hq), Option.or_none, hs.children q]
  · have hsame : h'.other? q = h.other? q := by rw [Host.other?, Host.other?, hothers]
    rw [hsame]
    by_cases hq : q = pid
    · rw [hq, begin_holder_self, hfree.other]
      exact iff_of_false Bool.false_ne_true fun heq => by cases heq
    · rw [begin_holder hq, hs.strangers q]
  · rcases Scene.mem_withStarted.mp hm with rfl | ⟨hm, hne, -⟩
    · exact .inl ((begin_holder_self _ pid).trans
        (congrArg _ (congrArg _ (begin_startOf_self _ pid).symm)))
    · exact hs.begin_running hfree hm hrun hne
  · rcases Scene.mem_withStarted.mp hm with rfl | ⟨hm, hne, -⟩
    · exact (begin_startOf_self _ pid).symm ▸ Nat.lt_succ_self _
    · rw [begin_startOf hne]
      exact Nat.lt_succ_of_lt (hs.early m hm)

/-! ## Strangers -/

/-- Who has a number that is not given to anyone else. -/
theorem give_holder {pid : UInt32} {who : Option Holder} (hne : q ≠ pid) :
    (g.give pid who).holder q = g.holder q := if_neg hne

theorem give_holder_self (pid : UInt32) (who : Option Holder) :
    (g.give pid who).holder pid = who := if_pos rfl

/-- A number of which no child is the holder changes hands. -/
theorem Sound.given (hs : Sound s h g) {pid : UInt32} {who : Option Holder}
    (hnot : ∀ k, g.holder pid ≠ some (.child k)) (hwho : ∀ k, who ≠ some (.child k))
    {others : List Other} (hsame : ∀ q, q ≠ pid →
      ((others.find? fun o => o.pid == q).isSome = true ↔ (h.other? q).isSome = true))
    (hself : (others.find? fun o => o.pid == pid).isSome = true ↔ who = some .stranger) :
    Sound s { h with others } (g.give pid who) where
  tidy := hs.tidy
  nodup := hs.nodup
  children q := by
    refine (hs.children q).trans ?_
    by_cases hq : q = pid
    · rw [hq, give_holder_self]
      exact iff_of_false (fun ⟨k, hk⟩ => hnot k hk) fun ⟨k, hk⟩ => hwho k hk
    · rw [give_holder hq]
  strangers q := by
    by_cases hq : q = pid
    · rw [hq, give_holder_self]
      exact hself
    · rw [give_holder hq]
      exact (hsame q hq).trans (hs.strangers q)
  child q k hk := by
    by_cases hq : q = pid
    · rw [hq, give_holder_self] at hk
      exact absurd hk (hwho k)
    · rw [give_holder hq] at hk
      exact hs.child q k hk
  later := hs.later
  running m hm hrun := by
    refine (hs.running m hm hrun).imp_left fun howns => (give_holder fun heq => ?_).trans howns
    exact hnot _ (heq ▸ howns)
  recorded q k hk := by
    by_cases hq : q = pid
    · rw [hq, give_holder_self] at hk
      exact absurd hk (hwho k)
    · rw [give_holder hq] at hk
      exact hs.recorded q k hk
  early := hs.early
  starts := hs.starts

theorem Sound.arrived (hs : Sound s h g) {o : Other} (hfree : h.IsFree o.pid) :
    Sound s { h with others := h.others ++ [o] } (g.give o.pid (some .stranger)) := by
  refine hs.given (fun k hk => ?_) (fun k hk => by cases hk) (fun q hq => ?_) ?_
  · rw [hs.holder_free hfree] at hk
    cases hk
  · rw [List.find?_append, List.find?_singleton, if_neg (by simpa using Ne.symm hq),
      Option.or_none]
    rfl
  · exact iff_of_true (by simp) rfl

theorem Sound.left (hs : Sound s h g) (hq : g.holder q = some .stranger) :
    Sound s { h with others := h.others.filter fun o => o.pid != q } (g.give q none) := by
  refine hs.given (fun k hk => ?_) (fun k hk => by cases hk) (fun q' hq' => ?_) ?_
  · rw [hq] at hk
    cases hk
  · rw [List.find?_filter]
    have hsame : (fun o : Other => decide ((o.pid != q) = true ∧ (o.pid == q') = true)) =
        fun o => o.pid == q' := by
      funext o
      by_cases ho : o.pid = q' <;> simp [ho, hq']
    rw [hsame]
    rfl
  · exact iff_of_false (by simp) fun heq => by cases heq

/-! ## Steps -/

theorem keeps_withDisk (h : Host) (disk : Disk) : h.Keeps (h.withDisk disk) :=
  h.keeps_storage _

theorem keeps_waited (s : Supervisor) (h : Host) (m : Managed) : h.Keeps (s.waited h m) :=
  h.pass_keeps _

theorem keeps_paused (s : Supervisor) (h : Host) (r : Request) : h.Keeps (paused s h r) := by
  unfold paused
  split
  · split
    · exact keeps_waited s h _
    · exact .refl h
  · exact .refl h

/-- A delivery leaves all processes where they are. -/
theorem keeps_inject (s : Supervisor) (h : Host) (m : Managed) (message : String)
    (id : MessageId) : h.Keeps (s.entered h m message id).settle := by
  have htyped : h.Keeps (s.typed h m message id) :=
    (h.keeps_storage _).trans (Host.keeps_type _ m.pid _)
  have hpassed := htyped.trans (Host.pass_keeps _ (s.delivery h m message id).slept)
  exact (hpassed.trans (Host.keeps_type _ m.pid _)).trans (Host.settle_keeps _)

/-- A request in which all processes stay where they are, and which starts none, is not noted. -/
theorem register_stays {a : Response} {h₀ : Host} (hstays : ∀ q, isGone h₀ h' q = false)
    (ha : ∀ name pid agent mode, a ≠ .spawned name pid agent mode) :
    (g.note a).collect h₀ h' = g := by
  rw [Registry.note_of_ne ha, Registry.collect_of_stays hstays]

theorem Sound.stays {s' : Supervisor} {a : Response} (hs : Sound s' h g) {h₀ : Host}
    (hstays : ∀ q, isGone h₀ h' q = false) (hk : h.Keeps h')
    (ha : ∀ name pid agent mode, a ≠ .spawned name pid agent mode) :
    Sound s' h' ((g.note a).collect h₀ h') := by
  rw [register_stays hstays ha]
  exact hs.keeps hk

theorem stays_of_keeps (hk : h.Keeps h') (q : UInt32) : isGone h h' q = false :=
  (Registry.isGone_of_keeps hk q).1

/-- Nobody goes because a process is started. -/
theorem stays_of_spawn {disk : Disk} {dir : Place} {argv : List String} {size : WindowSize}
    {vars : Variables} {pid : UInt32}
    (hspawn : (h.withDisk disk).spawn dir argv size vars = .ok (pid, h')) (q : UInt32) :
    isGone h h' q = false := by
  have hchild := Host.child?_spawn hspawn q
  have hsame : (h.withDisk disk).child? q = h.child? q := rfl
  rw [hsame] at hchild
  unfold isGone
  rw [hchild, Option.isNone_or]
  cases h.child? q <;> rfl

/-- **A request** keeps table and register in agreement. -/
theorem Sound.handled (hs : Sound s h g) (draw : Draw) (r : Request)
    (hfree : ∀ w, r = .spawn w → h.IsFree h.nextPid) :
    Sound (s.handle draw h r).2.1 (s.handle draw h r).2.2
      ((g.note (s.handle draw h r).1).collect (paused s h r) (s.handle draw h r).2.2) := by
  have hcases := s.handle_cases draw h r
  generalize s.handle draw h r = answered at hcases
  cases hcases with
  | unchanged _ a ha =>
    exact hs.stays (fun q => (Registry.isGone_of_keeps (keeps_paused s h r) q).2) (.refl h) ha
  | refused w e k =>
    refine (hs.counters k).stays (stays_of_keeps (.refl h)) (.refl h) fun _ _ _ _ he => ?_
    cases he
  | failed w e p k disk =>
    refine (hs.counters k).stays (stays_of_keeps (keeps_withDisk h disk))
      (keeps_withDisk h disk) fun _ _ _ _ he => ?_
    cases he
  | spawned w p k disk pid h' hp hd hspawn =>
    have hnone : (h.withDisk disk).IsFree (h.withDisk disk).nextPid :=
      ⟨(hfree w rfl).child, (hfree w rfl).other⟩
    show Sound _ h' ((g.begin p.session.name pid).collect h h')
    rw [Registry.collect_of_stays (stays_of_spawn hspawn)]
    exact (hs.keeps (keeps_withDisk h disk)).started hp hnone hspawn
  | checked m report hreport hm =>
    have hpaused : paused s h (.status m.name) = s.waited h m := by simp only [paused, hm]
    rw [hpaused]
    exact (hs.keeps (keeps_waited s h m)).drained
  | delivered m message id hm =>
    refine hs.stays (stays_of_keeps (keeps_inject s h m message _))
      (keeps_inject s h m message _) fun _ _ _ _ he => ?_
    cases he
  | signalled m n h' hm hrun hsend =>
    have hk := Host.keeps_send hsend
    refine hs.stays (stays_of_keeps hk) hk fun _ _ _ _ he => ?_
    cases he
  | removed m hm hend =>
    refine (hs.dropped hm hend).stays (stays_of_keeps (keeps_withDisk h _)) (keeps_withDisk h _)
      fun _ _ _ _ he => ?_
    cases he

/-- **Every step** keeps table and register in agreement. -/
theorem Step.sound (hstep : Step x e y) (hs : Sound x.supervisor x.host x.registry) :
    Sound y.supervisor y.host y.registry := by
  cases hstep with
  | request s h g draw r hfree => exact hs.handled draw r hfree
  | starved s s' h h' g draw w p e hr =>
    have hready := s.ready_cases w draw h
    rw [hr] at hready
    cases hready with
    | cleared _ k disk => exact (hs.counters k).keeps (keeps_withDisk h disk)
  | look s h g => exact hs.drained
  | goes s h h' g hk => exact hs.keeps hk
  | arrives s h g o hfree => exact hs.arrived hfree
  | leaves s h g q hq => exact hs.left hq

/-! ## Runs -/

/-- A state that a supervisor may come to from its opening on, when it had started no process. -/
inductive Reachable (x : State) : Prop where
  | intro (config : Config) (state : StateDir) (dir : Place) (disk disk' : Disk) (s : Supervisor)
      (h : Host) (es : List Event)
      (hopen : Supervisor.openAt config state dir disk = .ok (s, disk'))
      (hnone : h.children = []) (hr : Runs Step ⟨s, h, .opening h⟩ es x)

theorem Reachable.step (hx : Reachable x) (hs : Step x e y) : Reachable y := by
  obtain ⟨config, state, dir, disk, disk', s, h, es, hopen, hnone, hr⟩ := hx
  exact .intro config state dir disk disk' s h (es ++ [e]) hopen hnone (hr.concat hs)

theorem Reachable.runs (hx : Reachable x) (hr : Runs Step x es y) : Reachable y :=
  hr.invariant (P := Reachable) (fun _ _ _ hs hx => hx.step hs) hx

/-- A supervisor that has just been opened has no records, and the register has no starts. -/
theorem Sound.opened (htable : s.table = []) (hnone : h.children = []) :
    Sound s h (.opening h) := by
  have hno (m : Managed) (hm : m ∈ s.table) : False := by
    rw [htable] at hm
    cases hm
  have hholder (q : UInt32) (who : Holder)
      (hq : (Registry.opening h).holder q = some who) : who = .stranger ∧
        (h.other? q).isSome = true := by
    by_cases hother : (h.other? q).isSome = true
    · have hstranger : (Registry.opening h).holder q = some .stranger := if_pos hother
      rw [hstranger] at hq
      exact ⟨(Option.some.inj hq).symm, hother⟩
    · have hnobody : (Registry.opening h).holder q = none := if_neg hother
      rw [hnobody] at hq
      cases hq
  exact {
    tidy := .of_nil htable
    nodup := by rw [hnone]; exact .nil
    children := fun q => by
      rw [Host.child?, hnone]
      exact iff_of_false Bool.false_ne_true fun ⟨k, hk⟩ => by cases (hholder q _ hk).1
    strangers := fun q => ⟨fun hother => if_pos hother, fun hq => (hholder q _ hq).2⟩
    child := fun q k hk => by cases (hholder q _ hk).1
    later := fun k _ => rfl
    running := fun m hm => (hno m hm).elim
    recorded := fun q k hk => by cases (hholder q _ hk).1
    early := fun m hm => (hno m hm).elim
    starts := fun m hm => (hno m hm).elim }

/-- **Table and register agree in every reachable state.** -/
theorem Reachable.sound (hx : Reachable x) : Sound x.supervisor x.host x.registry := by
  obtain ⟨config, state, dir, disk, disk', s, h, es, hopen, hnone, hr⟩ := hx
  exact hr.invariant (P := fun x => Sound x.supervisor x.host x.registry)
    (fun _ _ _ => Step.sound) (.opened (Scene.openAt_table hopen) hnone)

/-! ## Numbers of their own -/

/-- A step after which the running sessions have numbers of their own on record. Of all steps only
    starts could lead to anything else: a running session whose process has been lost has a number
    on record that is free. -/
structure SeparateStep (x : State) (e : Event) (y : State) : Prop where
  step : Step x e y
  apart : Apart y.supervisor.table

/-- A state that a supervisor may come to from its opening on by such steps. -/
inductive Separate (x : State) : Prop where
  | intro (config : Config) (state : StateDir) (dir : Place) (disk disk' : Disk) (s : Supervisor)
      (h : Host) (es : List Event)
      (hopen : Supervisor.openAt config state dir disk = .ok (s, disk'))
      (hnone : h.children = []) (hr : Runs SeparateStep ⟨s, h, .opening h⟩ es x)

theorem Separate.step (hx : Separate x) (hs : SeparateStep x e y) : Separate y := by
  obtain ⟨config, state, dir, disk, disk', s, h, es, hopen, hnone, hr⟩ := hx
  exact .intro config state dir disk disk' s h (es ++ [e]) hopen hnone (hr.concat hs)

theorem Separate.runs (hx : Separate x) (hr : Runs SeparateStep x es y) : Separate y :=
  hr.invariant (P := Separate) (fun _ _ _ hs hx => hx.step hs) hx

theorem Separate.reachable (hx : Separate x) : Reachable x := by
  obtain ⟨config, state, dir, disk, disk', s, h, es, hopen, hnone, hr⟩ := hx
  exact .intro config state dir disk disk' s h es hopen hnone (hr.imp fun _ _ _ hs => hs.step)

theorem Separate.apart (hx : Separate x) : Apart x.supervisor.table := by
  obtain ⟨config, state, dir, disk, disk', s, h, es, hopen, hnone, hr⟩ := hx
  refine hr.invariant (P := fun x => Apart x.supervisor.table) (fun _ _ _ hs _ => hs.apart) ?_
  show Apart s.table
  rw [Scene.openAt_table hopen]
  exact .nil

/-- A session by itself has its number to itself. -/
theorem apart_of_length {ms : List Managed} (hshort : ms.length ≤ 1) : Apart ms := by
  match ms with
  | [] => exact .nil
  | [m] => exact List.pairwise_singleton _ m

/-- From a state with one session, in which nothing has ended, processes end and a look follows. -/
theorem runs_finished (hshort : s.table.length ≤ 1) (hlife : ∀ c ∈ h.children, c.ended = none)
    (t : Termination) {r : Scene}
    (hr : s.drain { h with children := h.children.map fun c => c.finish t } = r) :
    ∃ g', Runs SeparateStep ⟨s, h, g⟩ [.world, .look] ⟨r.1, r.2, g'⟩ := by
  have hk : h.Keeps { h with children := h.children.map fun c => c.finish t } :=
    h.keeps_map fun c hc => ⟨rfl, fun code hcode => by rw [hlife c hc] at hcode; cases hcode⟩
  have hlength := (s.drain_looked { h with children := h.children.map fun c => c.finish t }).length_eq
  rw [← hr]
  exact ⟨_, .cons ⟨.goes s h _ g hk, apart_of_length hshort⟩
    (.cons ⟨.look s _ g, apart_of_length (hlength ▸ hshort)⟩ (.nil _))⟩

/-- An answered request leads on. -/
theorem Separate.answered (hx : Separate ⟨s, h, g⟩) {draw : Draw} {r : Request}
    (hfree : ∀ w, r = .spawn w → h.IsFree h.nextPid) {z : Scene}
    (hz : (s.handle draw h r).2 = z) (hapart : Apart z.1.table) : ∃ g', Separate ⟨z.1, z.2, g'⟩ := by
  rw [← hz] at hapart ⊢
  exact ⟨_, hx.step ⟨.request s h g draw r hfree, hapart⟩⟩

/-- A supervisor that has been opened just now starts a session, and files change. -/
theorem separate_alone (storage : Storage) :
    ∃ g, Separate ⟨Scene.alone.1, { Scene.alone.2 with storage }, g⟩ := by
  have hstart : Separate ⟨Scene.bare, { storage := { now := 0 } }, .opening _⟩ :=
    .intro _ _ _ _ _ _ _ [] Scene.openAt_bare rfl (.nil _)
  have hanswered : (Scene.bare.handle ⟨⟨"m"⟩, fun _ => ""⟩ { storage := { now := 0 } }
      Scene.wanted).2 = Scene.alone := rfl
  have hapart : Apart Scene.alone.1.table := apart_of_length (by decide +kernel)
  obtain ⟨g, hx⟩ := hstart.answered (fun _ _ => ⟨rfl, rfl⟩) hanswered hapart
  generalize Scene.alone = z at hx hapart
  exact ⟨g, hx.step ⟨.goes z.1 z.2 _ g (z.2.keeps_storage storage), hapart⟩⟩

/-- The scene when its process has ended in some way and has been collected. -/
def collected (t : Termination) (storage : Storage) : Scene :=
  Scene.alone.1.drain { Scene.alone.2 with
    storage, children := Scene.alone.2.children.map fun c => c.finish t }

theorem runs_collected (g : Registry) (t : Termination) (storage : Storage) :
    ∃ g', Runs SeparateStep ⟨Scene.alone.1, { Scene.alone.2 with storage }, g⟩ [.world, .look]
      ⟨(collected t storage).1, (collected t storage).2, g'⟩ := by
  have hshort : Scene.alone.1.table.length ≤ 1 := by decide +kernel
  have hlife : ∀ c ∈ Scene.alone.2.children, c.ended = none := by decide +kernel
  have hlooked : Scene.alone.1.drain { Scene.alone.2 with
    storage, children := Scene.alone.2.children.map fun c => c.finish t } =
      collected t storage := rfl
  generalize Scene.alone = z at hshort hlife hlooked
  exact runs_finished (h := { z.2 with storage }) hshort hlife t hlooked

end Owners

end AgentSupervisor
