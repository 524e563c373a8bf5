import AgentSupervisor.Proofs.ProcessOwners

/-!
# Whose exit codes are on record

While the running sessions have numbers of their own on record, a look tells every session what
its own process came to: the exit code on record is the one that was told of that process, and
there is none while the process has not been collected or when nothing was told of it.

* `Told`          : the table has the exit codes that the register has;
* `Told.step`     : every step keeps that;
* `Separate.told` : and so does every run from an opening on.
-/

namespace AgentSupervisor

namespace Owners

open Supervisor (Apart Coded)
open Scene (Event)
open Registry (isGone)

variable {x y : State} {e : Event} {s : Supervisor} {h h' : Host} {g : Registry}
  {m m' : Managed} {q : UInt32} {k : Nat}

/-- Every record has the exit code that was told of its own process. -/
def Told (s : Supervisor) (g : Registry) : Prop :=
  ∀ m ∈ s.table, m.exitCode = g.code (g.startOf m.name)

/-- Whoever has the number of a lost session is not the process of another one. -/
theorem Sound.codeOf_lost (hs : Sound s h g) (hapart : Apart s.table) (hm : m ∈ s.table)
    (hrun : m.isRunning = true) (hcollected : g.Collected m) : h.codeOf? m.pid = none := by
  cases hc : h.child? m.pid with
  | none => rw [Host.codeOf?, Host.endOf?, hc]; rfl
  | some c =>
    obtain ⟨k, hk⟩ := (hs.children m.pid).mp (by rw [hc]; rfl)
    obtain ⟨m₁, hm₁, hrun₁, hpid, rfl⟩ := hs.recorded _ _ hk
    obtain rfl : m₁ = m := by
      by_contra hne
      have hsymm : Std.Symm fun a b : Managed =>
          a.isRunning = true → b.isRunning = true → a.pid ≠ b.pid :=
        ⟨fun _ _ hab hb ha => (hab ha hb).symm⟩
      exact hapart.forall hm₁ hm hne hrun₁ hrun hpid
    rw [Registry.Collected, (hs.child _ _ hk).2.2] at hcollected
    cases hcollected

/-! ## Looking -/

/-- A look gives no session another number. -/
theorem apart_drain (hapart : Apart s.table) (h : Host) : Apart (s.drain h).1.table := by
  have hlooked := List.forall₂_iff_get.mp (s.drain_looked h)
  have hstill {m m' : Managed} (hl : Supervisor.Looked h (s.drain h).2 m m')
      (hrun : m'.isRunning = true) : m.isRunning = true ∧ m'.pid = m.pid := by
    cases hl with
    | ended he => exact ⟨hrun, rfl⟩
    | running _ hr _ hp => exact ⟨hr, hp⟩
    | reaped _ _ _ hr _ hp => exact ⟨hr, hp⟩
  refine List.pairwise_iff_getElem.mpr fun i j hi hj hij harun hbrun => ?_
  have hi' : i < s.table.length := by rwa [hlooked.1]
  have hj' : j < s.table.length := by rwa [hlooked.1]
  obtain ⟨ha, hapid⟩ := hstill (hlooked.2 i hi' hi) harun
  obtain ⟨hb, hbpid⟩ := hstill (hlooked.2 j hj' hj) hbrun
  simp only [List.get_eq_getElem] at ha hapid hb hbpid
  rw [hapid, hbpid]
  exact List.pairwise_iff_getElem.mp hapart i j hi' hj' hij ha hb

/-- **A look** puts on record what is told of a session's own process. -/
theorem Told.drained (ht : Told s g) (hs : Sound s h g) (hapart : Apart s.table) :
    Told (s.drain h).1 (g.collect h (s.drain h).2) := by
  intro m' hm'
  obtain ⟨m, hm, hc⟩ := mem_drain_coded hapart hm'
  have hown := ht m hm
  rw [hc.code, name_of_session hc.session]
  show _ = (g.collect h (s.drain h).2).code (g.startOf m.name)
  unfold Registry.code at hown ⊢
  cases hcode : m.exitCode with
  | some code =>
    obtain ⟨t, hfate, htold⟩ := Option.bind_eq_some_iff.mp (hown.symm.trans hcode)
    rw [hs.fate_collect hfate, Option.some_or, Option.bind_some, htold]
  | none =>
    have hrun : m.isRunning = true := Option.isNone_iff_eq_none.mpr hcode
    rw [Option.none_or]
    rcases hs.running m hm hrun with howns | ⟨hcollected, -⟩
    · rcases hs.drained_owns hm hrun howns with ⟨hend, howns'⟩ | ⟨t, hend, hfate⟩
      · have hfate : (g.collect h (s.drain h).2).fate (g.startOf m.name) = none :=
          (hs.drained_child howns').2.2
        rw [hfate, Host.codeOf?, hend]
      · rw [hfate, Host.codeOf?, hend]
    · -- its process was lost before, and stays so
      obtain ⟨t, hfate⟩ := Option.isSome_iff_exists.mp hcollected
      rw [hs.codeOf_lost hapart hm hrun hcollected, hs.fate_collect hfate, ← hfate, ← hown, hcode]

/-! ## Steps -/

/-- A new session has no exit code yet. -/
theorem Told.started (ht : Told s g) (hs : Sound s h g) {p : Prepared} {c : NameCounters}
    {pid : UInt32} : Told { s with counters := c, table := s.withStarted p pid }
      (g.begin p.session.name pid) := by
  intro m hm
  show _ = g.code ((g.begin p.session.name pid).startOf m.name)
  rcases Scene.mem_withStarted.mp hm with rfl | ⟨hm, hne, -⟩
  · have hself : (g.begin p.session.name pid).startOf p.session.name = g.starts :=
      begin_startOf_self _ pid
    rw [Registry.code, Managed.name, hself, hs.later _ (Nat.le_refl _)]
    rfl
  · rw [begin_startOf hne]
    exact ht m hm

theorem Told.stays {a : Response} {h₀ : Host} (ht : Told s g)
    (hstays : ∀ q, isGone h₀ h' q = false)
    (ha : ∀ name pid agent mode, a ≠ .spawned name pid agent mode) :
    Told s ((g.note a).collect h₀ h') := by
  rw [register_stays hstays ha]
  exact ht

/-- **A request** keeps exit codes right. -/
theorem Told.handled (ht : Told s g) (hs : Sound s h g) (hapart : Apart s.table) (draw : Draw)
    (r : Request) :
    Told (s.handle draw h r).2.1
      ((g.note (s.handle draw h r).1).collect (paused s h r) (s.handle draw h r).2.2) := by
  have hcases := s.handle_cases draw h r
  generalize s.handle draw h r = answered at hcases
  cases hcases with
  | unchanged _ a ha =>
    exact ht.stays (fun q => (Registry.isGone_of_keeps (keeps_paused s h r) q).2) ha
  | refused w e k =>
    refine Told.stays (g := g) ht (stays_of_keeps (.refl h)) fun _ _ _ _ he => ?_
    cases he
  | failed w e p k disk =>
    refine Told.stays (g := g) ht (stays_of_keeps (keeps_withDisk h disk)) fun _ _ _ _ he => ?_
    cases he
  | spawned w p k disk pid h' hp hd hspawn =>
    show Told _ ((g.begin p.session.name pid).collect h h')
    rw [Registry.collect_of_stays (stays_of_spawn hspawn)]
    exact ht.started hs
  | checked m report hreport hm =>
    have hpaused : paused s h (.status m.name) = s.waited h m := by simp only [paused, hm]
    rw [hpaused]
    exact ht.drained (hs.keeps (keeps_waited s h m)) hapart
  | delivered m message id hm =>
    refine ht.stays (stays_of_keeps (keeps_inject s h m message _)) fun _ _ _ _ he => ?_
    cases he
  | signalled m n h' hm hrun hsend =>
    refine ht.stays (stays_of_keeps (Host.keeps_send hsend)) fun _ _ _ _ he => ?_
    cases he
  | removed m hm hend =>
    have hless : Told (s.dropped m.name) g := fun m' hm' => ht m' (List.mem_filter.mp hm').1
    refine hless.stays (stays_of_keeps (keeps_withDisk h _)) fun _ _ _ _ he => ?_
    cases he

/-- **Every step** from a state in which the running sessions have numbers of their own keeps exit
    codes right. -/
theorem Told.step (hstep : Step x e y) (hs : Sound x.supervisor x.host x.registry)
    (hapart : Apart x.supervisor.table) (ht : Told x.supervisor x.registry) :
    Told y.supervisor y.registry := by
  cases hstep with
  | request s h g draw r hfree => exact ht.handled hs hapart draw r
  | starved s s' h h' g draw w p e hr =>
    have hready := s.ready_cases w draw h
    rw [hr] at hready
    cases hready with
    | cleared => exact ht
  | look s h g => exact ht.drained hs hapart
  | goes | arrives | leaves => exact ht

/-- **The exit codes on record are those of the sessions' own processes** while running sessions
    have numbers of their own. -/
theorem Separate.told (hx : Separate x) : Told x.supervisor x.registry := by
  obtain ⟨config, state, dir, disk, disk', s, h, es, hopen, hnone, hr⟩ := hx
  have htable := Scene.openAt_table hopen
  have hstart : Sound s h (.opening h) ∧ Apart s.table ∧ Told s (.opening h) := by
    refine ⟨.opened htable hnone, by rw [htable]; exact .nil, fun m hm => ?_⟩
    rw [htable] at hm
    cases hm
  exact (hr.invariant (P := fun x => Sound x.supervisor x.host x.registry ∧
      Apart x.supervisor.table ∧ Told x.supervisor x.registry)
    (fun _ _ _ hs ⟨hsound, hapart, ht⟩ =>
      ⟨hs.step.sound hsound, hs.apart, ht.step hs.step hsound hapart⟩) hstart).2.2

end Owners

end AgentSupervisor
