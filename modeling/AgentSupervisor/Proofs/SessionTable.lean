import AgentSupervisor.Proofs.Paths
import AgentSupervisor.Proofs.Processes
import AgentSupervisor.Proofs.RequestEffects
import AgentSupervisor.Supervisor.Socket
import Mathlib.Data.List.Forall2
import Mathlib.Data.List.Pairwise

/-!
# The table of sessions in every state

A supervisor answers requests and looks at its processes, in any order, while anything may happen
on its host.

* `drain_looked`    : what a look at the processes does to each record;
* `Step.tidy`       : a step leaves records with names and inboxes of their own;
* `Step.running`    : what becomes of the record of a running session in one step;
* `Step.ended`      : and of one that has ended;
* `reachable_table` : all of it, for every reachable scene and every run from there.
-/

namespace AgentSupervisor

/-! ## Looking at processes -/

namespace Supervisor

variable {s : Supervisor} {h : Host}

/-- What a look at the processes does to a record. `h` is the host before it, and `h'` the host
    after it. -/
inductive Looked (h h' : Host) (m : Managed) : Managed → Prop where
  | ended (he : m.isRunning = false) : Looked h h' m m
  | running (m' : Managed) (hr : m.isRunning = true) (hs : m'.session = m.session)
      (hp : m'.pid = m.pid) (hr' : m'.isRunning = true) : Looked h h' m m'
  /-- the process has ended and is collected -/
  | reaped (m' : Managed) (c : Child) (code : Int32) (hr : m.isRunning = true)
      (hs : m'.session = m.session) (hp : m'.pid = m.pid) (he : m'.exitCode = some code)
      (hc : h.child? m.pid = some c) (hcode : c.code? = some code)
      (hgone : h'.child? m.pid = none) : Looked h h' m m'

theorem Looked.mono {h₀ h₁ h₂ h₃ : Host} {m m' : Managed} (hl : Looked h₁ h₂ m m')
    (h01 : Host.Shrinks h₀ h₁) (h23 : Host.Shrinks h₂ h₃) : Looked h₀ h₃ m m' := by
  cases hl with
  | ended he => exact .ended he
  | running _ hr hs hp hr' => exact .running m' hr hs hp hr'
  | reaped _ c code hr hs hp he hc hcode hgone =>
    obtain ⟨c₀, hc₀, he₀⟩ := h01 _ c hc
    rw [Child.code?, ← he₀, ← Child.code?] at hcode
    exact .reaped m' c₀ code hr hs hp he hc₀ hcode (h23.gone hgone)

theorem Looked.session {h h' : Host} {m m' : Managed} (hl : Looked h h' m m') :
    m'.session = m.session := by
  cases hl with
  | ended => rfl
  | running _ _ hs => exact hs
  | reaped _ _ _ _ hs => exact hs

/-- **What a look at the processes does to each record.** -/
theorem drainAll_looked (ms : List Managed) (h : Host) :
    List.Forall₂ (Looked h (drainAll ms h).2) ms (drainAll ms h).1 ∧
      Host.Shrinks h (drainAll ms h).2 := by
  induction ms generalizing h with
  | nil => exact ⟨.nil, .refl h⟩
  | cons m ms ih =>
    unfold drainAll
    split
    · rename_i hrun
      obtain ⟨hshrinks, hended⟩ := h.collect_cases m.pid
      generalize h.collect m.pid = r at hshrinks hended
      obtain ⟨output, ended, h₁⟩ := r
      obtain ⟨hrest, hshrinks'⟩ := ih h₁
      simp only at hshrinks hended ⊢
      refine ⟨.cons ?_ (hrest.imp fun a b hl => hl.mono hshrinks (.refl _)),
        hshrinks.trans hshrinks'⟩
      have hdrain (output : List Bytes) : (m.drain ended output).session = m.session ∧
          (m.drain ended output).pid = m.pid ∧ (m.drain ended output).exitCode = ended := by
        rw [Managed.drain, if_pos hrun]
        exact ⟨rfl, rfl, rfl⟩
      obtain ⟨hs, hp, he⟩ := hdrain (Managed.chunks output)
      cases ended with
      | none => exact .running _ hrun hs hp (by rw [Managed.isRunning, he]; rfl)
      | some code =>
        obtain ⟨hgone, c, hc, hcode⟩ := hended code rfl
        exact .reaped _ c code hrun hs hp he hc hcode (hshrinks'.gone hgone)
    · rename_i hrun
      obtain ⟨hrest, hshrinks⟩ := ih h
      exact ⟨.cons (.ended (Bool.eq_false_iff.mpr hrun)) hrest, hshrinks⟩

theorem drainAll_storage (ms : List Managed) (h : Host) :
    (drainAll ms h).2.storage = h.storage := by
  induction ms generalizing h with
  | nil => rfl
  | cons m ms ih =>
    have hcollect : (h.collect m.pid).2.2.storage = h.storage := by
      unfold Host.collect
      split
      · rfl
      · split <;> rfl
    unfold drainAll
    split
    · show (drainAll ms (h.collect m.pid).2.2).2.storage = _
      rw [ih, hcollect]
    · exact ih h

theorem drain_looked (s : Supervisor) (h : Host) :
    List.Forall₂ (Looked h (s.drain h).2) s.table (s.drain h).1.table :=
  (drainAll_looked s.table h).1

end Supervisor

/-! ## Runs -/

/-- Steps, one after another, with what happens in them. -/
inductive Runs {S E : Type} (step : S → E → S → Prop) : S → List E → S → Prop where
  | nil (x : S) : Runs step x [] x
  | cons {x y z : S} {e : E} {es : List E} (hs : step x e y) (hr : Runs step y es z) :
      Runs step x (e :: es) z

namespace Runs

variable {S E : Type} {step : S → E → S → Prop} {x y z : S} {e : E} {es : List E}

theorem concat (hr : Runs step x es y) (hs : step y e z) : Runs step x (es ++ [e]) z := by
  induction hr with
  | nil => exact .cons hs (.nil z)
  | cons hstep _ ih => exact .cons hstep (ih hs)

theorem append {fs : List E} (hr : Runs step x es y) (hr' : Runs step y fs z) :
    Runs step x (es ++ fs) z := by
  induction hr with
  | nil => exact hr'
  | cons hs _ ih => exact .cons hs (ih hr')

/-- A run can be cut between two events. -/
theorem append_inv {fs : List E} (hr : Runs step x (es ++ fs) z) :
    ∃ y, Runs step x es y ∧ Runs step y fs z := by
  induction es generalizing x with
  | nil => exact ⟨x, .nil x, hr⟩
  | cons e es ih =>
    cases hr with
    | cons hs hr =>
      obtain ⟨y, hbefore, hafter⟩ := ih hr
      exact ⟨y, .cons hs hbefore, hafter⟩

/-- What every step keeps, a run keeps. -/
theorem invariant {P : S → Prop} (hstep : ∀ x e y, step x e y → P x → P y)
    (hr : Runs step x es y) (hx : P x) : P y := by
  induction hr with
  | nil => exact hx
  | cons hs _ ih => exact ih (hstep _ _ _ hs hx)

/-- Steps of a kind are steps of a wider kind. -/
theorem imp {step' : S → E → S → Prop} (himp : ∀ x e y, step x e y → step' x e y)
    (hr : Runs step x es y) : Runs step' x es y := by
  induction hr with
  | nil x => exact .nil x
  | cons hs _ ih => exact .cons (himp _ _ _ hs) ih

end Runs

/-! ## Steps -/

/-- A supervisor and its host. -/
abbrev Scene := Supervisor × Host

namespace Scene

open Supervisor (Planned Looked)

/-- What happens in a scene. -/
inductive Event where
  /-- a request is answered -/
  | request (r : Request) (a : Response)
  /-- the supervisor looks at its processes -/
  | look
  /-- something happens on the host -/
  | world

/-- A step. Anything may happen on the host between two steps of the supervisor: processes may
    end, and files may change. -/
inductive Step : Scene → Event → Scene → Prop where
  | request (s : Supervisor) (h : Host) (draw : Draw) (r : Request) :
      Step (s, h) (.request r (s.handle draw h r).1) (s.handle draw h r).2
  /-- all is ready for a session, but the system gives no terminal or no process for it -/
  | starved (s s' : Supervisor) (h h' : Host) (draw : Draw) (w : SpawnRequest) (p : Prepared)
      (e : String) (hr : s.ready w draw h = (.ok p, s', h')) :
      Step (s, h) (.request (.spawn w) (.error e)) (s', h')
  | look (s : Supervisor) (h : Host) : Step (s, h) .look (s.drain h)
  | world (s : Supervisor) (h h' : Host) : Step (s, h) .world (s, h')

/-- What a step makes of the supervisor. -/
inductive Turned (s : Supervisor) : Event → Scene → Prop where
  /-- no record has changed -/
  | kept (e : Event) (k : NameCounters) (h : Host)
      (he : ∀ r name pid agent mode, e ≠ .request r (.spawned name pid agent mode)) :
      Turned s e ({ s with counters := k }, h)
  | looked (e : Event) (h : Host)
      (he : e = .look ∨ ∃ name health n code,
        e = .request (.status name) (.status name health n code)) :
      Turned s e (s.drain h)
  | started (w : SpawnRequest) (p : Prepared) (k : NameCounters) (pid : UInt32) (h : Host)
      (hp : s.Planned p) :
      Turned s (.request (.spawn w) (Supervisor.spawnedResponse p.session pid))
        ({ s with counters := k, table := s.withStarted p pid }, h)
  | dropped (m : Managed) (h : Host) (hm : s.table.named? m.name = some m)
      (hend : m.isRunning = false) :
      Turned s (.request (.remove m.name) .ok) (s.dropped m.name, h)

variable {s : Supervisor} {x y z : Scene} {e : Event} {es : List Event} {m : Managed}

/-- **What a step makes of the supervisor.** -/
theorem Step.turned (hs : Step x e y) : Turned x.1 e y := by
  cases hs with
  | request s h draw r =>
    have hcases := s.handle_cases draw h r
    generalize s.handle draw h r = answered at hcases
    cases hcases with
    | unchanged _ a ha =>
      refine .kept _ s.counters h fun r' name pid agent mode he => ?_
      exact ha name pid agent mode (Event.request.inj he).2
    | refused _ _ k => exact .kept _ k h fun _ _ _ _ _ he => by cases he
    | failed _ _ _ k disk => exact .kept _ k _ fun _ _ _ _ _ he => by cases he
    | spawned w p k disk pid h' hp => exact .started w p k pid h' hp
    | checked m report => exact .looked _ _ (.inr ⟨m.name, _, _, _, rfl⟩)
    | delivered => exact .kept _ s.counters _ fun _ _ _ _ _ he => by cases he
    | signalled => exact .kept _ s.counters _ fun _ _ _ _ _ he => by cases he
    | removed m hm hend => exact .dropped m _ hm hend
  | starved s s' h h' draw w p _ hr =>
    have hready := s.ready_cases w draw h
    rw [hr] at hready
    cases hready with
    | cleared _ k disk => exact .kept _ k _ fun _ _ _ _ _ he => by cases he
  | look s h => exact .looked _ h (.inl rfl)
  | world s h h' => exact .kept _ s.counters h' fun _ _ _ _ _ he => by cases he

/-! ## Records of their own -/

/-- The files of a record are those of its name, and no two records have the same inbox. -/
structure Tidy (s : Supervisor) : Prop where
  inbox : ∀ m ∈ s.table, m.session.inbox = InboxId.ofName m.name
  pidFile : ∀ m ∈ s.table, m.session.pidFile = s.state.pidFile m.session.inbox
  apart : s.table.Pairwise fun a b => a.session.inbox ≠ b.session.inbox

/-- There is one record of an inbox. -/
theorem Tidy.unique (ht : Tidy s) {a b : Managed} (ha : a ∈ s.table) (hb : b ∈ s.table)
    (hab : a.session.inbox = b.session.inbox) : a = b := by
  have hsymm : Std.Symm fun a b : Managed => a.session.inbox ≠ b.session.inbox :=
    ⟨fun _ _ hne => hne.symm⟩
  by_contra hne
  exact ht.apart.forall ha hb hne hab

/-- **A record is found under its name.** -/
theorem Tidy.named (ht : Tidy s) (hm : m ∈ s.table) : s.table.named? m.name = some m := by
  cases hn : s.table.named? m.name with
  | none =>
    have hnot := List.find?_eq_none.mp hn m hm
    simp at hnot
  | some m' =>
    obtain ⟨hm', hname⟩ := Supervisor.named?_name hn
    have hinbox : m'.session.inbox = m.session.inbox := by
      rw [ht.inbox m' hm', ht.inbox m hm, hname]
    rw [ht.unique hm' hm hinbox]

/-- **PID files are apart** because inboxes are. -/
theorem Tidy.pidFiles (ht : Tidy s) :
    s.table.Pairwise fun a b => a.session.pidFile ≠ b.session.pidFile := by
  refine ht.apart.imp_of_mem fun {a b} ha hb hne heq => hne ?_
  rw [ht.pidFile a ha, ht.pidFile b hb, ht.inbox a ha, ht.inbox b hb] at heq
  rw [ht.inbox a ha, ht.inbox b hb]
  exact StateDir.pidFile_inj (InboxId.slash_not_mem _) (InboxId.slash_not_mem _) heq

theorem Tidy.of_nil (htable : s.table = []) : Tidy s := by
  refine ⟨fun m hm => ?_, fun m hm => ?_, ?_⟩
  · rw [htable] at hm
    cases hm
  · rw [htable] at hm
    cases hm
  · rw [htable]
    exact .nil

theorem Tidy.sublist {s' : Supervisor} (ht : Tidy s) (hstate : s'.state = s.state)
    (hsub : s'.table.Sublist s.table) : Tidy s' where
  inbox m hm := ht.inbox m (hsub.subset hm)
  pidFile m hm := by rw [hstate]; exact ht.pidFile m (hsub.subset hm)
  apart := ht.apart.sublist hsub

theorem mem_withoutReplaced {t : SessionTable} {session : Session} :
    m ∈ t.withoutReplaced session ↔
      m ∈ t ∧ m.name ≠ session.name ∧ m.session.inbox ≠ session.inbox := by
  simp [SessionTable.withoutReplaced]

theorem mem_withStarted {p : Prepared} {pid : UInt32} :
    m ∈ s.withStarted p pid ↔ m = { session := p.session, pid } ∨
      m ∈ s.table ∧ m.name ≠ p.session.name ∧ m.session.inbox ≠ p.session.inbox := by
  have hname (m : Managed) : m.name ≠ p.session.name ∧ m.name ≠ p.session.name ↔
      m.name ≠ p.session.name := and_self_iff
  rw [Supervisor.withStarted, SessionTable.insert, List.mem_cons, SessionTable.without,
    List.mem_filter, mem_withoutReplaced]
  show _ ∨ _ ∧ (m.name != p.session.name) = true ↔ _
  rw [bne_iff_ne]
  tauto

theorem Tidy.started {p : Prepared} {pid : UInt32} {k : NameCounters} (ht : Tidy s)
    (hp : s.Planned p) : Tidy { s with counters := k, table := s.withStarted p pid } where
  inbox m hm := by
    rcases mem_withStarted.mp hm with rfl | ⟨hm, -⟩
    · exact hp.inbox
    · exact ht.inbox m hm
  pidFile m hm := by
    rcases mem_withStarted.mp hm with rfl | ⟨hm, -⟩
    · exact hp.pidFile
    · exact ht.pidFile m hm
  apart := by
    refine List.pairwise_cons.mpr ⟨fun m hm => ?_, ?_⟩
    · have hkept := (mem_withoutReplaced.mp (List.mem_filter.mp hm).1).2.2
      exact hkept.symm
    · exact ht.apart.sublist (List.filter_sublist.trans List.filter_sublist)

/-- A new session replaces no record of another inbox, because its name leads to its own. -/
theorem Tidy.mem_withStarted {p : Prepared} {pid : UInt32} (ht : Tidy s) (hp : s.Planned p)
    (hm : m ∈ s.table) (hinbox : m.session.inbox ≠ p.session.inbox) :
    m ∈ s.withStarted p pid := by
  refine Scene.mem_withStarted.mpr (.inr ⟨hm, fun hname => hinbox ?_, hinbox⟩)
  rw [hp.inbox, ht.inbox m hm, hname]

/-- The record of an ended session is dropped, and no running one with it. -/
theorem Tidy.mem_dropped {d : Managed} (ht : Tidy s) (hd : s.table.named? d.name = some d)
    (hend : d.isRunning = false) (hm : m ∈ s.table) (hrun : m.isRunning = true) :
    m ∈ (s.dropped d.name).table := by
  refine List.mem_filter.mpr ⟨hm, bne_iff_ne.mpr fun heq => ?_⟩
  have hnamed := ht.named hm
  rw [heq, hd] at hnamed
  cases hnamed
  rw [hend] at hrun
  cases hrun

theorem drain_sessions (s : Supervisor) (h : Host) :
    (s.drain h).1.table.map Managed.session = s.table.map Managed.session := by
  have hlooked := s.drain_looked h
  generalize (s.drain h).2 = h' at hlooked
  generalize (s.drain h).1.table = t' at hlooked
  generalize s.table = t at hlooked
  induction hlooked with
  | nil => rfl
  | cons hl _ ih => rw [List.map_cons, List.map_cons, ih, hl.session]

theorem Tidy.looked (ht : Tidy s) (h : Host) : Tidy (s.drain h).1 := by
  have hsessions := drain_sessions s h
  have hold {m : Managed} (hm : m ∈ (s.drain h).1.table) :
      ∃ m₀ ∈ s.table, m₀.session = m.session := by
    have hmem : m.session ∈ s.table.map Managed.session := by
      rw [← hsessions]
      exact List.mem_map_of_mem hm
    exact List.mem_map.mp hmem
  refine ⟨fun m hm => ?_, fun m hm => ?_, ?_⟩
  · obtain ⟨m₀, hm₀, heq⟩ := hold hm
    have hinbox := ht.inbox m₀ hm₀
    rwa [Managed.name, heq] at hinbox
  · obtain ⟨m₀, hm₀, heq⟩ := hold hm
    have hpid := ht.pidFile m₀ hm₀
    rwa [heq] at hpid
  · have hapart : (s.table.map Managed.session).Pairwise fun a b => a.inbox ≠ b.inbox :=
      List.pairwise_map.mpr ht.apart
    rw [← hsessions, List.pairwise_map] at hapart
    exact hapart

/-- **A step keeps the table tidy.** -/
theorem Step.tidy (hs : Step x e y) (ht : Tidy x.1) : Tidy y.1 := by
  obtain ⟨s, h⟩ := x
  have hturned := hs.turned
  cases hturned with
  | kept => exact ht.sublist rfl (.refl _)
  | looked _ h' => exact ht.looked h'
  | started w p k pid h' hp => exact ht.started hp
  | dropped => exact ht.sublist rfl List.filter_sublist

/-! ## What becomes of a record -/

/-- The session of a record is still running in a scene. -/
def Running (m : Managed) (x : Scene) : Prop :=
  ∃ m' ∈ x.1.table, m'.session = m.session ∧ m'.pid = m.pid ∧ m'.isRunning = true

/-- A look found that the process of a record had ended, and collected it. Its exit code was told
    and is on record now. -/
def Reaped (m : Managed) (x y : Scene) : Prop :=
  ∃ h c code m', x.1.drain h = y ∧ h.child? m.pid = some c ∧ c.code? = some code ∧
    y.2.child? m.pid = none ∧ m' ∈ y.1.table ∧ m'.session = m.session ∧ m'.pid = m.pid ∧
    m'.exitCode = some code

/-- What takes the record of an ended session out of the table: its removal, and a new session of
    the same inbox. -/
inductive Retires (m : Managed) : Event → Prop where
  | removed : Retires m (.request (.remove m.name) .ok)
  | replaced (w : SpawnRequest) (name : String) (pid : UInt32) (agent : String)
      (mode : DeliveryMode) (hname : InboxId.ofName name = m.session.inbox) :
      Retires m (.request (.spawn w) (.spawned name pid agent mode))

theorem drain_mem (s : Supervisor) (h : Host) (hm : m ∈ s.table) :
    ∃ m' ∈ (s.drain h).1.table, Looked h (s.drain h).2 m m' := by
  obtain ⟨i, hi, rfl⟩ := List.getElem_of_mem hm
  have hlooked := List.forall₂_iff_get.mp (s.drain_looked h)
  have hi' : i < (s.drain h).1.table.length := by rwa [← hlooked.1]
  exact ⟨_, List.getElem_mem hi', hlooked.2 i hi hi'⟩

theorem mem_drain (s : Supervisor) (h : Host) {m' : Managed} (hm' : m' ∈ (s.drain h).1.table) :
    ∃ m ∈ s.table, Looked h (s.drain h).2 m m' := by
  obtain ⟨i, hi, rfl⟩ := List.getElem_of_mem hm'
  have hlooked := List.forall₂_iff_get.mp (s.drain_looked h)
  have hi' : i < s.table.length := by rwa [hlooked.1]
  exact ⟨_, List.getElem_mem hi', hlooked.2 i hi' hi⟩

/-- **A running session keeps its record**, until a look finds that its process has ended. -/
theorem Step.running (hs : Step x e y) (ht : Tidy x.1) (hm : Running m x) :
    Running m y ∨ Reaped m x y := by
  obtain ⟨s, h⟩ := x
  obtain ⟨m₀, hm₀, hsession, hpid, hrun⟩ := hm
  have hturned := hs.turned
  cases hturned with
  | kept => exact .inl ⟨m₀, hm₀, hsession, hpid, hrun⟩
  | looked _ h' =>
    obtain ⟨m', hm', hlooked⟩ := drain_mem s h' hm₀
    cases hlooked with
    | ended he =>
      rw [he] at hrun
      cases hrun
    | running _ _ hs' hp' hr' => exact .inl ⟨m', hm', hs'.trans hsession, hp'.trans hpid, hr'⟩
    | reaped _ c code _ hs' hp' he hc hcode hgone =>
      rw [hpid] at hc hgone
      exact .inr ⟨h', c, code, m', rfl, hc, hcode, hgone, hm', hs'.trans hsession,
        hp'.trans hpid, he⟩
  | started w p k pid h' hp =>
    have hfree := hp.free m₀ hm₀ hrun
    exact .inl ⟨m₀, ht.mem_withStarted hp hm₀ hfree, hsession, hpid, hrun⟩
  | dropped d h' hd hend => exact .inl ⟨m₀, ht.mem_dropped hd hend hm₀ hrun, hsession, hpid, hrun⟩

/-- **An ended session keeps its record as it is**, until something takes it out. -/
theorem Step.ended (hs : Step x e y) (ht : Tidy x.1) (hm : m ∈ x.1.table)
    (hend : m.isRunning = false) : m ∈ y.1.table ∨ Retires m e := by
  obtain ⟨s, h⟩ := x
  have hturned := hs.turned
  cases hturned with
  | kept => exact .inl hm
  | looked _ h' =>
    obtain ⟨m', hm', hlooked⟩ := drain_mem s h' hm
    cases hlooked with
    | ended => exact .inl hm'
    | running _ hr =>
      rw [hend] at hr
      cases hr
    | reaped _ _ _ hr =>
      rw [hend] at hr
      cases hr
  | started w p k pid h' hp =>
    by_cases hinbox : m.session.inbox = p.session.inbox
    · exact .inr (.replaced w _ _ _ _ (by rw [hinbox, hp.inbox]))
    · exact .inl (ht.mem_withStarted hp hm hinbox)
  | dropped d h' hd _ =>
    by_cases heq : m.name = d.name
    · rw [← heq]
      exact .inr .removed
    · refine .inl (List.mem_filter.mpr ⟨hm, ?_⟩)
      simpa using heq

/-- A request that is refused changes no record. -/
theorem Step.refused {r : Request} {message : String}
    (hs : Step x (.request r (.error message)) y) : y.1.table = x.1.table := by
  have hturned := hs.turned
  generalize he : Event.request r (.error message) = e at hturned
  cases hturned with
  | kept => rfl
  | looked _ h' hlook =>
    subst he
    rcases hlook with h | ⟨_, _, _, _, h⟩ <;> cases h
  | started => cases he
  | dropped => cases he

/-- A session that has been started is on record. -/
theorem Step.spawned {r : Request} {name agent : String} {pid : UInt32} {mode : DeliveryMode}
    (hs : Step x (.request r (.spawned name pid agent mode)) y) :
    ∃ m ∈ y.1.table, m.name = name ∧ m.pid = pid ∧ m.isRunning = true := by
  have hturned := hs.turned
  generalize he : Event.request r (.spawned name pid agent mode) = e at hturned
  cases hturned with
  | kept _ _ _ hne => exact absurd he.symm (hne r name pid agent mode)
  | looked _ h' hlook =>
    subst he
    rcases hlook with h | ⟨_, _, _, _, h⟩ <;> cases h
  | started w p k pid' h' hp =>
    cases he
    exact ⟨_, mem_withStarted.mpr (.inl rfl), rfl, rfl, rfl⟩
  | dropped => cases he

/-! ## Every reachable scene -/

/-- A scene that a supervisor may come to from its opening on. -/
inductive Reachable (x : Scene) : Prop where
  | intro (config : Config) (state : StateDir) (dir : Place) (disk disk' : Disk) (s : Supervisor)
      (h : Host) (es : List Event)
      (hopen : Supervisor.openAt config state dir disk = .ok (s, disk'))
      (hr : Runs Step (s, h) es x)

theorem openAt_table {config : Config} {state : StateDir} {dir : Place} {disk disk' : Disk}
    (hopen : Supervisor.openAt config state dir disk = .ok (s, disk')) : s.table = [] := by
  unfold Supervisor.openAt at hopen
  split at hopen
  · cases hopen
  · cases hopen
    rfl

theorem Reachable.tidy (hx : Reachable x) : Tidy x.1 := by
  obtain ⟨config, state, dir, disk, disk', s, h, es, hopen, hr⟩ := hx
  exact hr.invariant (P := fun x => Tidy x.1) (fun _ _ _ => Step.tidy)
    (.of_nil (openAt_table hopen))

theorem Reachable.step (hx : Reachable x) (hs : Step x e y) : Reachable y := by
  obtain ⟨config, state, dir, disk, disk', s, h, es, hopen, hr⟩ := hx
  exact .intro config state dir disk disk' s h (es ++ [e]) hopen (hr.concat hs)

/-- Anything may happen on the host before the supervisor looks at its processes. -/
theorem Reachable.looked (hx : Reachable x) (h : Host) : Reachable (x.1.drain h) :=
  (hx.step (.world x.1 x.2 h)).step (.look x.1 h)

/-- A running session keeps its record through a run, unless a look in between reaps it. -/
theorem runs_running (hr : Runs Step x es y) (ht : Tidy x.1) (hm : Running m x) :
    Running m y ∨ ∃ before e after z z', es = before ++ e :: after ∧ Runs Step x before z ∧
      Running m z ∧ Step z e z' ∧ Reaped m z z' ∧ Runs Step z' after y := by
  induction hr with
  | nil => exact .inl hm
  | @cons x x' y e es hs hr ih =>
    rcases hs.running ht hm with hrun | hreap
    · rcases ih (hs.tidy ht) hrun with hy | ⟨before, e', after, z, z', rfl, hbefore, h⟩
      · exact .inl hy
      · exact .inr ⟨e :: before, e', after, z, z', rfl, .cons hs hbefore, h⟩
    · exact .inr ⟨[], e, es, x, x', rfl, .nil x, hm, hs, hreap, hr⟩

/-- An ended session keeps its record through a run, unless something takes it out. -/
theorem runs_ended (hr : Runs Step x es y) (ht : Tidy x.1) (hm : m ∈ x.1.table)
    (hend : m.isRunning = false) : m ∈ y.1.table ∨ ∃ e ∈ es, Retires m e := by
  induction hr with
  | nil => exact .inl hm
  | @cons x x' y e es hs _ ih =>
    rcases hs.ended ht hm hend with hm' | hretires
    · rcases ih (hs.tidy ht) hm' with hy | ⟨e', he', hretires⟩
      · exact .inl hy
      · exact .inr ⟨e', List.mem_cons_of_mem e he', hretires⟩
    · exact .inr ⟨e, List.mem_cons_self, hretires⟩

/-- **The table in every reachable scene.** Records stand under their own names, in inboxes and
    with PID files of their own. A refused request changes no record; a session that has been
    started is on record until a look reaps it; and the record of an ended session stays as it is
    until it is removed or a new session takes its inbox. -/
theorem reachable_table (hx : Reachable x) :
    (∀ m ∈ x.1.table, x.1.table.named? m.name = some m) ∧
    (x.1.table.Pairwise fun a b => a.session.inbox ≠ b.session.inbox) ∧
    (x.1.table.Pairwise fun a b => a.session.pidFile ≠ b.session.pidFile) ∧
    (∀ r message y, Step x (.request r (.error message)) y → y.1.table = x.1.table) ∧
    (∀ r name pid agent mode y, Step x (.request r (.spawned name pid agent mode)) y →
      ∃ m ∈ y.1.table, m.name = name ∧ m.pid = pid ∧ m.isRunning = true) ∧
    ∀ es y m, Runs Step x es y →
      (Running m x → Running m y ∨
        ∃ before e after z z', es = before ++ e :: after ∧ Runs Step x before z ∧ Running m z ∧
          Step z e z' ∧ Reaped m z z' ∧ Runs Step z' after y) ∧
      (m ∈ x.1.table → m.isRunning = false →
        m ∈ y.1.table ∨ ∃ e ∈ es, Retires m e) := by
  have ht := hx.tidy
  refine ⟨fun m hm => ht.named hm, ht.apart, ht.pidFiles, fun r message y => Step.refused,
    fun r name pid agent mode y => Step.spawned, fun es y m hr => ⟨?_, ?_⟩⟩
  · exact runs_running hr ht
  · exact runs_ended hr ht

/-- A supervisor without a session. -/
def bare : Supervisor := { config := {}, state := ⟨"/s"⟩, dir := [], store := ⟨["s", "inbox"]⟩ }

theorem openAt_bare : Supervisor.openAt {} ⟨"/s"⟩ [] {} =
    .ok (bare, ⟨[(["s", "inbox"], .directory), (["s"], .directory)]⟩) := by decide +kernel

/-- A request for a session. -/
def wanted : Request :=
  .spawn { name := some "a b", agent := some "claude", command := some "true" }

/-- The scene after that request. -/
def alone : Scene := (bare.handle ⟨⟨"m"⟩, fun _ => ""⟩ { storage := { now := 0 } } wanted).2

theorem reachable_alone : Reachable alone :=
  .intro _ _ _ _ _ bare _ _ openAt_bare (.cons (.request bare _ _ wanted) (.nil alone))

/-- The host when the process of the session has ended. -/
def ended : Host := { alone.2 with children := alone.2.children.map fun c => c.finish (.exit 3) }

/-- Whatever happens on the host, a look and a removal may follow. -/
theorem runs_remove (x : Scene) (h : Host) (name : String)
    (hok : ((x.1.drain h).1.remove name (x.1.drain h).2).1 = .ok) :
    Runs Step x [.world, .look, .request (.remove name) .ok]
      ((x.1.drain h).1.remove name (x.1.drain h).2).2 := by
  obtain ⟨s, h₀⟩ := x
  have hlook : Step (s, h) .look (s.drain h) := .look s h
  simp only at hok ⊢
  generalize s.drain h = y at hlook hok
  obtain ⟨s', h'⟩ := y
  have hremove := Step.request s' h' ⟨⟨"m"⟩, fun _ => ""⟩ (.remove name)
  simp only [Supervisor.handle] at hremove hok ⊢
  rw [hok] at hremove
  exact .cons (.world s h₀ h) (.cons hlook (.cons hremove (.nil _)))

/-- A session whose record has been removed was reaped before that. -/
theorem reachable_table_removed :
    ∃ m es y, Running m alone ∧ Runs Step alone es y ∧ y.1.table = [] ∧
      ∃ before e after z z', es = before ++ e :: after ∧ Runs Step alone before z ∧
        Running m z ∧
        Step z e z' ∧ Reaped m z z' := by
  obtain ⟨m, hm, hrun⟩ : ∃ m ∈ alone.1.table, m.isRunning = true := by decide +kernel
  have hruns := runs_remove alone ended "a b" (by decide +kernel)
  have hgone : ((alone.1.drain ended).1.remove "a b" (alone.1.drain ended).2).2.1.table = [] := by
    decide +kernel
  refine ⟨m, _, _, ⟨m, hm, rfl, rfl, hrun⟩, hruns, hgone, ?_⟩
  obtain ⟨-, -, -, -, -, hall⟩ := reachable_table reachable_alone
  rcases (hall _ _ m hruns).1 ⟨m, hm, rfl, rfl, hrun⟩ with ⟨m', hm', -⟩ | h
  · rw [hgone] at hm'
    cases hm'
  · obtain ⟨before, e, after, z, z', hes, hbefore, hz, hstep, hreaped, -⟩ := h
    exact ⟨before, e, after, z, z', hes, hbefore, hz, hstep, hreaped⟩

end Scene

end AgentSupervisor
