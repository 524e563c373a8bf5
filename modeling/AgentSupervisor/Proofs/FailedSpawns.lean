import AgentSupervisor.Proofs.PidFiles

/-!
# Sessions that are not started

A request for a session can fail before anything is changed, and it can fail when the process of
the session cannot be started. Then the PID file that an earlier session of the same inbox had
left has been removed already, while the record of that session is still there.

* `Fails`          : how a request for a session fails;
* `failed_table`   : no record and no process is changed by it;
* `failed_pid_dir` : what it does to the directory of PID files;
* `failed_spawn`   : all of it.
-/

namespace AgentSupervisor.FailedSpawns

open PidFiles (dirOf fileOf)

/-- How a request for a session fails, with what is left behind: it is answered with an error, or
    all is ready and the system gives no terminal or no process. -/
inductive Fails (s : Supervisor) (w : SpawnRequest) (draw : Draw) (h : Host) : Scene → Prop where
  | answered (e : String) (he : (s.spawn w draw h).1 = .error e) :
      Fails s w draw h (s.spawn w draw h).2
  | starved (p : Prepared) (s' : Supervisor) (h' : Host)
      (hr : s.ready w draw h = (.ok p, s', h')) : Fails s w draw h (s', h')

/-- The process of a session is to be started: everything before that has gone well. -/
def Launches (s : Supervisor) (w : SpawnRequest) (draw : Draw) (h : Host) (p : Prepared) : Prop :=
  (s.ready w draw h).1 = .ok p

/-- The directory of PID files holds what it held. -/
def SameFiles (s : Supervisor) (h h' : Host) : Prop :=
  ∀ n, h'.storage.disk.seen (dirOf s ++ [n]) = h.storage.disk.seen (dirOf s ++ [n])

variable {s : Supervisor} {w : SpawnRequest} {draw : Draw} {h h' : Host} {y : Scene} {p : Prepared}

/-- A request that fails leaves what getting ready has left. -/
theorem Fails.eq_ready (hf : Fails s w draw h y) : y = (s.ready w draw h).2 := by
  cases hf with
  | answered e he =>
    rw [Supervisor.spawn_eq] at he ⊢
    generalize s.ready w draw h = r at he ⊢
    obtain ⟨_ | p, s', h'⟩ := r
    · rfl
    · simp only at he ⊢
      cases hstart : s'.start p h' with
      | error e => rfl
      | ok started =>
        rw [hstart] at he
        cases he
  | starved p s' h' hr => rw [hr]

/-- **No record and no process** is changed. -/
theorem failed_table (hf : Fails s w draw h y) :
    y.1.table = s.table ∧ y.2.children = h.children := by
  rw [hf.eq_ready]
  have hready := s.ready_cases w draw h
  generalize s.ready w draw h = r at hready
  cases hready with
  | refused => exact ⟨rfl, rfl⟩
  | cleared => exact ⟨rfl, rfl⟩

/-- A session that cannot be got ready leaves the disk as it is. -/
theorem sameFiles_of_refused (hf : Fails s w draw h y) (hnone : ∀ p, ¬ Launches s w draw h p) :
    SameFiles s h y.2 := by
  rw [hf.eq_ready]
  unfold Launches at hnone
  have hready := s.ready_cases w draw h
  generalize s.ready w draw h = r at hready hnone
  cases hready with
  | refused => exact fun n => rfl
  | cleared p => exact absurd rfl (hnone p)

/-- **A session whose process cannot be started** has had its PID file removed, and no other. -/
theorem failed_pid_dir (hf : Fails s w draw h y) (hp : Launches s w draw h p) :
    s.Planned p ∧ fileOf s y.2 p.session = none ∧
      ∀ n, n ≠ StateDir.pidFileName p.session.inbox →
        y.2.storage.disk.seen (dirOf s ++ [n]) = h.storage.disk.seen (dirOf s ++ [n]) := by
  rw [hf.eq_ready]
  unfold Launches at hp
  have hready := s.ready_cases w draw h
  generalize s.ready w draw h = r at hready hp
  cases hready with
  | refused => cases hp
  | cleared p' k disk hplan hd =>
    obtain rfl := Except.ok.inj hp
    refine ⟨hplan, ?_⟩
    unfold Supervisor.clearPidFile at hd
    cases hr : h.storage.disk.remove (s.pidPlace p'.session) with
    | ok disk' =>
      rw [hr] at hd
      cases hd
      refine ⟨Disk.seen_remove hr, fun n hn => Disk.seen_of_find ?_⟩
      rw [PidFiles.planned_place hplan] at hr
      exact Disk.find_remove (Disk.not_prefix_sibling (Ne.symm hn)) hr
    | error e =>
      rw [hr] at hd
      cases e with
      | notFound =>
        cases hd
        exact ⟨Disk.seen_of_remove hr, fun _ _ => rfl⟩
      | _ => cases hd

/-- The directory of PID files is as it was, unless the process could not be started and a file
    of the inbox was there. -/
theorem sameFiles_iff (hf : Fails s w draw h y) :
    SameFiles s h y.2 ↔ ∀ p, Launches s w draw h p → fileOf s h p.session = none := by
  constructor
  · intro hsame p hp
    obtain ⟨hplan, hgone, -⟩ := failed_pid_dir hf hp
    rw [fileOf, PidFiles.planned_place hplan] at hgone ⊢
    rw [← hsame, hgone]
  · intro hnone
    by_cases hlaunch : ∃ p, Launches s w draw h p
    · obtain ⟨p, hp⟩ := hlaunch
      obtain ⟨hplan, hgone, hothers⟩ := failed_pid_dir hf hp
      have hfile := hnone p hp
      rw [fileOf, PidFiles.planned_place hplan] at hgone hfile
      intro n
      by_cases hn : n = StateDir.pidFileName p.session.inbox
      · rw [hn, hgone, hfile]
      · exact hothers n hn
    · exact sameFiles_of_refused hf (not_exists.mp hlaunch)

/-- **A request for a session that fails** changes no record and no process. It changes the
    directory of PID files exactly when it gets as far as starting the process and a file of that
    inbox is there: this file is gone then, and no other, and no running session uses it. -/
theorem failed_spawn (hf : Fails s w draw h y) :
    y.1.table = s.table ∧ y.2.children = h.children ∧
    (SameFiles s h y.2 ↔ ∀ p, Launches s w draw h p → fileOf s h p.session = none) ∧
    ∀ p, Launches s w draw h p →
      fileOf s y.2 p.session = none ∧
      (∀ n, n ≠ StateDir.pidFileName p.session.inbox →
        y.2.storage.disk.seen (dirOf s ++ [n]) = h.storage.disk.seen (dirOf s ++ [n])) ∧
      ∀ m ∈ s.table, m.isRunning = true → m.session.inbox ≠ p.session.inbox := by
  obtain ⟨htable, hchildren⟩ := failed_table hf
  refine ⟨htable, hchildren, sameFiles_iff hf, fun p hp => ?_⟩
  obtain ⟨hplan, hgone, hothers⟩ := failed_pid_dir hf hp
  exact ⟨hgone, hothers, hplan.free⟩

/-- What chance gives to the requests below. -/
def chance : Draw := ⟨⟨"m"⟩, fun _ => ""⟩

/-- The scene when the process of a session has written its number and has been reaped. -/
def left : Scene :=
  Scene.alone.1.drain
    { Scene.ended with storage := { Scene.ended.storage with disk := PidFiles.numbered } }

/-- A request for the same name whose command no process can be given. -/
def nulled : SpawnRequest :=
  { name := some "a b", agent := some "claude", command := some "true\x00" }

theorem left_reachable : Scene.Reachable left := Scene.reachable_alone.looked _

/-- Is an answer a refusal? -/
def isError : Response → Bool
  | .error _ => true
  | _ => false

theorem exists_of_isError {a : Response} (h : isError a = true) : ∃ e, a = .error e := by
  cases a <;> first | exact ⟨_, rfl⟩ | cases h

theorem nulled_refused : ∃ e, (left.1.spawn nulled chance left.2).1 = .error e :=
  exists_of_isError (by decide +kernel)

/-- The request fails when the process is to be started, and the record of the ended session with
    its PID file is there. -/
theorem failed_spawn_left : ∃ p, Launches left.1 nulled chance left.2 p ∧
    fileOf left.1 left.2 p.session = some (PidFiles.numberFile 4000) ∧
    (left.1.spawn nulled chance left.2).2.1.table = left.1.table ∧
    fileOf left.1 (left.1.spawn nulled chance left.2).2.2 p.session = none := by
  have hready : ((left.1.ready nulled chance left.2).1.toOption.map fun p =>
      fileOf left.1 left.2 p.session) = some (some (PidFiles.numberFile 4000)) := by decide +kernel
  obtain ⟨e, he⟩ := nulled_refused
  obtain ⟨p, hp, hfile⟩ := Option.map_eq_some_iff.mp hready
  have hlaunch : Launches left.1 nulled chance left.2 p := by
    unfold Launches
    generalize (left.1.ready nulled chance left.2).1 = r at hp
    cases r with
    | error e => cases hp
    | ok p' => exact congrArg Except.ok (Option.some.inj hp)
  obtain ⟨htable, -, -, hlost⟩ := failed_spawn (.answered e he)
  exact ⟨p, hlaunch, hfile, htable, (hlost p hlaunch).1⟩

/-- A request that fails can change the directory of PID files: here the record of the ended
    session stays, and its PID file is gone. -/
theorem failed_spawn_takes_file : Scene.Reachable left ∧
    (∃ e, (left.1.spawn nulled chance left.2).1 = .error e) ∧
    (∃ m ∈ (left.1.spawn nulled chance left.2).2.1.table, m.name = "a b" ∧
      m.isRunning = false ∧
      fileOf left.1 left.2 m.session = some (PidFiles.numberFile 4000)) ∧
    ¬ SameFiles left.1 left.2 (left.1.spawn nulled chance left.2).2.2 := by
  have hthere : left.2.storage.disk.seen (dirOf left.1 ++ ["a-b.pid"]) =
      some (PidFiles.numberFile 4000) := by decide +kernel
  have hgone : (left.1.spawn nulled chance left.2).2.2.storage.disk.seen
      (dirOf left.1 ++ ["a-b.pid"]) = none := by decide +kernel
  have hrecord : ∃ m ∈ (left.1.spawn nulled chance left.2).2.1.table, m.name = "a b" ∧
      m.isRunning = false ∧
      fileOf left.1 left.2 m.session = some (PidFiles.numberFile 4000) := by decide +kernel
  refine ⟨left_reachable, nulled_refused, hrecord, fun hsame => ?_⟩
  have hboth := hsame "a-b.pid"
  rw [hthere, hgone] at hboth
  cases hboth

end AgentSupervisor.FailedSpawns
