import AgentSupervisor.Proofs.ProcessOwners

/-!
# Whom a signal reaches

A request for a signal names a session, and the signal goes to the process number that is on
record for it. That is the process of the session as long as it has not been collected. A process
of which nothing was told when it was collected leaves a record that counts as running, and then
the signal goes to whoever has the number by then.

* `Reaches`               : what becomes of a signal, by who has the number;
* `Sound.own_or_gone`     : what a running session may have of its process;
* `kill_reaches`          : what a request for a signal does;
* `kill_reaches_stranger` : a signal that reaches a process of someone else.
-/

namespace AgentSupervisor

namespace Owners

open Scene (Event)

variable {x y : State} {s : Supervisor} {h h' : Host} {g : Registry} {m : Managed} {q : UInt32}

/-- The process of a record has its number and has not been collected. -/
structure Own (x : State) (m : Managed) : Prop where
  holder : x.registry.Owns m
  alive : x.registry.fate (x.registry.startOf m.name) = none

/-- The process of a record has been collected, and it has its number no longer. This happens to a
    running session only when a process has been collected of which nothing was told. -/
structure Gone (x : State) (m : Managed) : Prop where
  collected : x.registry.Collected m
  lost : x.registry.Lost
  holder : ¬ x.registry.Owns m

theorem Sound.own_or_gone (hs : Sound x.supervisor x.host x.registry)
    (hm : m ∈ x.supervisor.table) (hrun : m.isRunning = true) : Own x m ∨ Gone x m := by
  rcases hs.running m hm hrun with howns | ⟨hcollected, hlost⟩
  · exact .inl ⟨howns, (hs.child _ _ howns).2.2⟩
  · refine .inr ⟨hcollected, hlost, fun howns => ?_⟩
    rw [Registry.Collected, (hs.child _ _ howns).2.2] at hcollected
    cases hcollected

/-- A signal to a process changes no other. -/
theorem child?_signal (h : Host) (pid : UInt32) (n : Int32) (hq : q ≠ pid) :
    (h.signal pid n).child? q = h.child? q := by
  rw [Host.signal, Host.child?_update _ fun c => c.receive_pid n]
  cases hc : h.child? q with
  | none => rfl
  | some c =>
    have hpid : c.pid = q := by simpa using List.find?_some hc
    rw [Option.map_some, if_neg (by rw [hpid]; exact hq)]

theorem other?_tell (h : Host) (pid : UInt32) (n : Int32) (hq : q ≠ pid) :
    (h.tell pid n).other? q = h.other? q := by
  unfold Host.other? Host.tell
  rw [List.find?_map]
  have hpid : ((fun o : Other => o.pid == q) ∘ fun o =>
      if o.pid = pid then { o with received := n :: o.received } else o) =
        fun o => o.pid == q := by
    funext o
    rw [Function.comp_apply]
    split <;> rfl
  rw [hpid]
  cases ho : h.others.find? fun o => o.pid == q with
  | none => rfl
  | some o =>
    have hopid : o.pid = q := by simpa using List.find?_some ho
    rw [Option.map_some, if_neg (by rw [hopid]; exact hq)]

theorem isValid_iff {n : Int32} : Signal.isValid n = true ↔ 1 ≤ n.toInt ∧ n.toInt ≤ 31 := by
  rw [Signal.isValid, Bool.and_eq_true, decide_eq_true_eq, decide_eq_true_eq]
  rfl

/-- What becomes of a signal that is sent to a number, by who has it. -/
inductive Reaches (x : State) (pid : UInt32) (name : String) (n : Int32) :
    Response → Host → Prop where
  | child (k : Nat) (hholder : x.registry.holder pid = some (.child k)) :
      Reaches x pid name n .ok (x.host.signal pid n)
  | stranger (o : Other) (hholder : x.registry.holder pid = some .stranger)
      (ho : x.host.other? pid = some o) (hforeign : o.foreign = false) :
      Reaches x pid name n .ok (x.host.tell pid n)
  | refused (o : Other) (hholder : x.registry.holder pid = some .stranger)
      (ho : x.host.other? pid = some o) (hforeign : o.foreign = true) :
      Reaches x pid name n (.error (RequestError.signal name .notPermitted).message) x.host
  | nobody (hholder : x.registry.holder pid = none) :
      Reaches x pid name n (.error (RequestError.signal name .noProcess).message) x.host

/-- No other number has anything to do with it. -/
theorem Reaches.frame {pid : UInt32} {name : String} {n : Int32} {a : Response}
    (hr : Reaches x pid name n a h') (hq : q ≠ pid) :
    h'.child? q = x.host.child? q ∧ h'.other? q = x.host.other? q := by
  cases hr with
  | child => exact ⟨child?_signal _ _ _ hq, rfl⟩
  | stranger => exact ⟨rfl, other?_tell _ _ _ hq⟩
  | refused | nobody => exact ⟨rfl, rfl⟩

theorem Sound.reaches_ok (hs : Sound s h g) {pid : UInt32} {n : Int32}
    (hsend : h.send pid n = .ok h') (name : String) : Reaches ⟨s, h, g⟩ pid name n .ok h' := by
  obtain ⟨hchild, rfl⟩ | ⟨-, ⟨o, ho, hforeign⟩, rfl⟩ := Host.send_ok hsend
  · obtain ⟨k, hk⟩ := (hs.children pid).mp hchild
    exact .child k hk
  · exact .stranger o ((hs.strangers pid).mp (by rw [ho]; rfl)) ho hforeign

theorem Sound.reaches_error (hs : Sound s h g) {pid : UInt32} {n : Int32} {e : SignalError}
    (hsend : h.send pid n = .error e) (name : String) :
    Reaches ⟨s, h, g⟩ pid name n (.error (RequestError.signal name e).message) h := by
  obtain ⟨hchild, ⟨hother, rfl⟩ | ⟨o, ho, hforeign, rfl⟩⟩ := Host.send_error hsend
  · exact .nobody (hs.holder_free ⟨hchild, hother⟩)
  · exact .refused o ((hs.strangers pid).mp (by rw [ho]; rfl)) ho hforeign

/-- A process that has its number gets the signal. -/
theorem Reaches.own {name : String} {n : Int32} {a : Response}
    (hr : Reaches x m.pid name n a h') (hm : Own x m) : a = .ok ∧ h' = x.host.signal m.pid n := by
  have hholder := hm.holder
  unfold Registry.Owns at hholder
  cases hr with
  | child => exact ⟨rfl, rfl⟩
  | stranger _ hstranger | refused _ hstranger =>
    rw [hstranger] at hholder
    cases hholder
  | nobody hnone =>
    rw [hnone] at hholder
    cases hholder

/-- What a request for a signal comes to. -/
inductive Killed (s : Supervisor) (h : Host) (name : String) (n : Int32) :
    Response × Supervisor × Host → Prop where
  | sent (m : Managed) (h' : Host) (hm : m ∈ s.table) (hname : m.name = name)
      (hrun : m.isRunning = true) (hn : Signal.isValid n = true)
      (hsend : h.send m.pid n = .ok h') : Killed s h name n (.ok, s, h')
  | failed (m : Managed) (e : SignalError) (hm : m ∈ s.table) (hname : m.name = name)
      (hrun : m.isRunning = true) (hn : Signal.isValid n = true)
      (hsend : h.send m.pid n = .error e) :
      Killed s h name n (.error (RequestError.signal name e).message, s, h)
  | exited (m : Managed) (hm : m ∈ s.table) (hname : m.name = name) (hend : m.isRunning = false)
      (hn : Signal.isValid n = true) : Killed s h name n (.ok, s, h)
  | invalid (hn : Signal.isValid n = false) :
      Killed s h name n (.error (RequestError.badSignal n).message, s, h)
  | unknown (hnone : ∀ m ∈ s.table, m.name ≠ name) (hn : Signal.isValid n = true) :
      Killed s h name n (.error (RequestError.notFound name).message, s, h)

theorem kill_killed (s : Supervisor) (h : Host) (name : String) (n : Int32) :
    Killed s h name n (s.kill name n h) := by
  unfold Supervisor.kill
  cases hn : Signal.isValid n with
  | false => exact .invalid hn
  | true =>
    rw [if_pos rfl]
    rcases s.record_cases name with hnone | ⟨m, hm, hnamed, hname⟩
    · rw [hnone]
      exact .unknown (Supervisor.record_unknown hnone).2 hn
    · obtain ⟨hmem, -⟩ := Supervisor.named?_name hnamed
      rw [hm]
      simp only
      cases hrun : m.isRunning with
      | true =>
        rw [if_pos rfl]
        cases hsend : h.send m.pid n with
        | ok h' => exact .sent m h' hmem hname hrun hn hsend
        | error e => exact .failed m e hmem hname hrun hn hsend
      | false => exact .exited m hmem hname hrun hn

/-- **A request for a signal** goes to the number on record for the named session, if it is
    running, and reaches whoever has that number, and nobody else. That is the process of the
    session, which has not been collected, unless some process has been collected of which nothing
    was told: then the session's own may be gone, and the signal reaches nobody, or anyone. A
    session that has ended gets none and the answer is yes; with a number that is no signal, or a
    name that is no session's, none is sent and the answer is an error. -/
theorem kill_reaches {name : String} {n : Int32} {a : Response} (hx : Reachable x)
    (hstep : Step x (.request (.kill name n) a) y) :
    y.supervisor = x.supervisor ∧
    ((∃ m ∈ x.supervisor.table, m.name = name ∧ m.isRunning = true ∧
        (1 ≤ n.toInt ∧ n.toInt ≤ 31) ∧ Reaches x m.pid name n a y.host ∧
        (∀ q, q ≠ m.pid →
          y.host.child? q = x.host.child? q ∧ y.host.other? q = x.host.other? q) ∧
        (Own x m ∧ a = .ok ∧ y.host = x.host.signal m.pid n ∨ Gone x m)) ∨
      y.host = x.host ∧
        ((∃ m ∈ x.supervisor.table, m.name = name ∧ m.isRunning = false ∧
            (1 ≤ n.toInt ∧ n.toInt ≤ 31) ∧ a = .ok) ∨
          (¬ (1 ≤ n.toInt ∧ n.toInt ≤ 31) ∧ a = .error (RequestError.badSignal n).message) ∨
          ((∀ m ∈ x.supervisor.table, m.name ≠ name) ∧ (1 ≤ n.toInt ∧ n.toInt ≤ 31) ∧
            a = .error (RequestError.notFound name).message))) := by
  have hsound := hx.sound
  generalize he : Event.request (.kill name n) a = e at hstep
  cases hstep with
  | request s h g draw r hfree =>
    obtain ⟨rfl, rfl⟩ := Event.request.inj he
    have hkilled := kill_killed s h name n
    have hhandle : s.handle draw h (.kill name n) = s.kill name n h := rfl
    rw [hhandle]
    have hown {m : Managed} {a : Response} {h' : Host} (hm : m ∈ s.table)
        (hrun : m.isRunning = true) (hr : Reaches ⟨s, h, g⟩ m.pid name n a h') :
        Own ⟨s, h, g⟩ m ∧ a = .ok ∧ h' = h.signal m.pid n ∨ Gone ⟨s, h, g⟩ m :=
      (hsound.own_or_gone hm hrun).imp_left fun hm => ⟨hm, hr.own hm⟩
    generalize s.kill name n h = r at hkilled
    cases hkilled with
    | sent m h' hm hname hrun hn hsend =>
      have hr := hsound.reaches_ok hsend name
      exact ⟨rfl, .inl ⟨m, hm, hname, hrun, isValid_iff.mp hn, hr, fun _ => hr.frame,
        hown hm hrun hr⟩⟩
    | failed m e hm hname hrun hn hsend =>
      have hr := hsound.reaches_error hsend name
      exact ⟨rfl, .inl ⟨m, hm, hname, hrun, isValid_iff.mp hn, hr, fun _ => hr.frame,
        hown hm hrun hr⟩⟩
    | exited m hm hname hend hn =>
      exact ⟨rfl, .inr ⟨rfl, .inl ⟨m, hm, hname, hend, isValid_iff.mp hn, rfl⟩⟩⟩
    | invalid hn =>
      refine ⟨rfl, .inr ⟨rfl, .inr (.inl ⟨fun hvalid => ?_, rfl⟩)⟩⟩
      rw [isValid_iff.mpr hvalid] at hn
      cases hn
    | unknown hnone hn =>
      exact ⟨rfl, .inr ⟨rfl, .inr (.inr ⟨hnone, isValid_iff.mp hn, rfl⟩)⟩⟩
  | starved | look | goes | arrives | leaves => cases he

/-- The scene when its number has been given to a stranger. -/
def taken (t : Termination) : Scene :=
  ((collected t { now := 0 }).1, { (collected t { now := 0 }).2 with
    others := (collected t { now := 0 }).2.others ++ [{ pid := 4000 }] })

theorem reachable_taken (t : Termination) (hfree : (collected t { now := 0 }).2.IsFree 4000) :
    ∃ g, Reachable ⟨(taken t).1, (taken t).2, g⟩ ∧ g.holder 4000 = some .stranger := by
  obtain ⟨g, halone⟩ := separate_alone { now := 0 }
  obtain ⟨g', hruns⟩ := runs_collected g t { now := 0 }
  have hx := (halone.runs hruns).reachable
  clear hruns
  unfold taken
  generalize collected t { now := 0 } = r at hx hfree
  exact ⟨_, hx.step (.arrives r.1 r.2 g' { pid := 4000 } hfree), give_holder_self 4000 _⟩

/-- The number of a session's process has gone to a stranger, and a signal for the session reaches
    nobody. -/
theorem kill_reaches_nobody :
    ∃ x y m a, Reachable x ∧ m ∈ x.supervisor.table ∧
      x.registry.holder m.pid = some .stranger ∧
      Step x (.request (.kill m.name 9) a) y ∧ a = .ok ∧ y.host = x.host := by
  have hfree : (collected (.exit 3) { now := 0 }).2.IsFree 4000 :=
    ⟨by decide +kernel, by decide +kernel⟩
  obtain ⟨g, hx, hholder⟩ := reachable_taken (.exit 3) hfree
  obtain ⟨m, hm, hpid, hend⟩ :
      ∃ m ∈ (taken (.exit 3)).1.table, m.pid = 4000 ∧ m.isRunning = false := by decide +kernel
  -- from here on the scene is any of which these facts hold
  generalize taken (.exit 3) = r at hx hm
  have hkill := Step.request r.1 r.2 g ⟨⟨"n"⟩, fun _ => ""⟩ (.kill m.name 9)
    fun w hw => by cases hw
  refine ⟨_, _, m, _, hx, hm, by rw [hpid]; exact hholder, hkill, ?_⟩
  obtain ⟨-, ⟨m', hm', hname, hrun, -⟩ | ⟨hhost, ⟨-, -, -, -, -, ha⟩ | ⟨hnot, -⟩ | ⟨hnone, -⟩⟩⟩ :=
    kill_reaches hx hkill
  · have hfound := hx.sound.tidy.named hm'
    rw [hname, hx.sound.tidy.named hm] at hfound
    rw [← Option.some.inj hfound, hend] at hrun
    cases hrun
  · exact ⟨ha, hhost⟩
  · exact absurd (by decide) hnot
  · exact absurd rfl (hnone m hm)

/-- A running session whose number a stranger has. -/
theorem kill_stranger {o : Other} {n : Int32} (hm : s.table.named? m.name = some m)
    (hrun : m.isRunning = true) (hn : Signal.isValid n = true) (hchild : h.child? m.pid = none)
    (ho : h.other? m.pid = some o) (hforeign : o.foreign = false) :
    s.kill m.name n h = (.ok, s, h.tell m.pid n) := by
  simp [Supervisor.kill, Supervisor.record, Host.send, hn, hm, hrun, hchild, ho, hforeign]

/-- The process of a session was ended by a signal that has no name, 34, and has been collected.
    Its number has gone to a stranger, and a signal for the session reaches that one. -/
theorem kill_reaches_stranger :
    ∃ x y m, Reachable x ∧ m ∈ x.supervisor.table ∧ x.registry.Collected m ∧
      x.registry.holder m.pid = some .stranger ∧
      Step x (.request (.kill m.name 9) .ok) y ∧ y.host = x.host.tell m.pid 9 := by
  have hfree : (collected (.signal 34) { now := 0 }).2.IsFree 4000 :=
    ⟨by decide +kernel, by decide +kernel⟩
  obtain ⟨g, hx, hholder⟩ := reachable_taken (.signal 34) hfree
  obtain ⟨m, hm, hpid, hrun⟩ :
      ∃ m ∈ (taken (.signal 34)).1.table, m.pid = 4000 ∧ m.isRunning = true := by decide +kernel
  have hchild : (taken (.signal 34)).2.child? 4000 = none := by decide +kernel
  have ho : (taken (.signal 34)).2.other? 4000 = some { pid := 4000 } := by decide +kernel
  -- from here on the scene is any of which these facts hold
  generalize taken (.signal 34) = r at hx hm hchild ho
  rw [← hpid] at hchild ho hholder
  have hkill := kill_stranger (n := 9) (hx.sound.tidy.named hm) hrun (by decide) hchild ho rfl
  have hstep := Step.request r.1 r.2 g ⟨⟨"n"⟩, fun _ => ""⟩ (.kill m.name 9)
    fun w hw => by cases hw
  rw [Supervisor.handle, hkill] at hstep
  have hgone := (hx.sound.own_or_gone hm hrun).resolve_left fun hown => by
    have howns := hown.holder
    rw [Registry.Owns, hholder] at howns
    cases howns
  exact ⟨_, _, m, hx, hm, hgone.collected, hholder, hstep, rfl⟩

end Owners

end AgentSupervisor
