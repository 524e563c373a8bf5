import AgentSupervisor.Proofs.InboxNames
import AgentSupervisor.Proofs.Recognition
import Mathlib.Data.List.Basic
import Mathlib.Data.List.Perm.Subperm

/-!
# Generated names

A session that is given no name gets one that no record has. What sessions share is an inbox,
though, and other names lead to the same one: a generated name can be refused because of a running
session, and take the record of one that has ended.

* `NameCounters.pick_free`    : a name that is picked is free, whatever is proposed;
* `Supervisor.prepare_cases`  : a plan is refused only for its inbox;
* `Supervisor.spawn_ends`     : how a request for a session ends;
* `generated_as_given`        : a generated name works like the same name when it is given;
* `generated_name`            : all of it, for every reachable scene and all proposals;
* `generated_name_clashes`    : a generated name is refused, and another takes a record.
-/

namespace AgentSupervisor

/-! ## Numbered names -/

theorem Text.decimal_inj {n m : Nat} (h : decimal n = decimal m) : n = m := by
  rw [← natOfDigits_decimal n, h, natOfDigits_decimal]

namespace NameCounters

variable {taken : String → Bool} {proposals : Nat → String} {k : NameCounters}
  {names spent : List String} {base : String}

/-- The number of a numbered name is the digits at its end. -/
theorem digits_numbered (base : String) (n : Nat) :
    (numbered base n).toList.reverse.takeWhile Text.isDigit = (Text.decimal n).reverse := by
  have hall : ∀ c ∈ (Text.decimal n).reverse, Text.isDigit c = true := fun c hc =>
    Text.decimal_all_digit n c (List.mem_reverse.mp hc)
  have hchars : (numbered base n).toList.reverse =
      (Text.decimal n).reverse ++ '-' :: base.toList.reverse := by
    simp [numbered]
  rw [hchars, List.takeWhile_append_of_pos hall, List.takeWhile_cons_of_neg (by decide),
    List.append_nil]

/-- A numbered name tells its proposal and its number. -/
theorem numbered_inj {base' : String} {n n' : Nat} (h : numbered base n = numbered base' n') :
    base = base' ∧ n = n' := by
  have hdigits := digits_numbered base n
  rw [h, digits_numbered] at hdigits
  obtain rfl := Text.decimal_inj (List.reverse_injective hdigits)
  have hchars := congrArg String.toList h
  simp only [numbered, String.toList_append] at hchars
  exact ⟨String.toList_inj.mp (List.append_cancel_right (List.append_cancel_right hchars)), rfl⟩

theorem next_count (k : NameCounters) (base base' : String) :
    (k.count base).next base' = if base' = base then k.next base + 1 else k.next base' := by
  rw [next, count]
  split
  · rename_i heq
    rw [heq, List.lookup_cons_self, Option.getD_some]
  · rename_i hne
    rw [List.lookup_cons, beq_eq_false_iff_ne.mpr hne]
    simp only
    rw [Disk.lookup_filter_ne hne, next]

/-! ## Free names -/

/-- Names that have been built already are not built again. -/
structure Spent (k : NameCounters) (spent : List String) : Prop where
  nodup : spent.Nodup
  counted : ∀ name ∈ spent, ∃ base n, name = numbered base n ∧ n < k.next base

/-- A numbered name that is built now is new. -/
theorem Spent.cons (h : Spent k spent) (base : String) :
    Spent (k.count base) (numbered base (k.next base) :: spent) := by
  refine ⟨List.nodup_cons.mpr ⟨fun hmem => ?_, h.nodup⟩, fun name hname => ?_⟩
  · obtain ⟨base', n, heq, hn⟩ := h.counted _ hmem
    obtain ⟨rfl, rfl⟩ := numbered_inj heq
    exact absurd hn (Nat.lt_irrefl _)
  · rcases List.mem_cons.mp hname with rfl | hname
    · exact ⟨base, k.next base, rfl, by rw [next_count, if_pos rfl]; exact Nat.lt_succ_self _⟩
    · obtain ⟨base', n, rfl, hn⟩ := h.counted name hname
      refine ⟨base', n, rfl, ?_⟩
      rw [next_count]
      split
      · rename_i heq
        exact Nat.lt_succ_of_lt (heq ▸ hn)
      · exact hn

/-- **A name that is picked is free**, whatever is proposed, if there are more tries than names
    that are taken: every try that fails has found another one of them. -/
theorem pick_free (hnames : ∀ name, taken name = true → name ∈ names) {tries turn : Nat}
    (hspent : Spent k spent) (hsub : spent ⊆ names) (htries : names.length < spent.length + tries) :
    taken (pick taken proposals tries turn k).1 = false := by
  induction tries generalizing turn k spent with
  | zero =>
    have hle := (List.subperm_of_subset hspent.nodup hsub).length_le
    omega
  | succ tries ih =>
    rw [pick]
    split
    · simp only
      split
      · rename_i htaken
        refine ih (hspent.cons (proposals turn)) ?_ (by rw [List.length_cons]; omega)
        exact List.cons_subset.mpr ⟨hnames _ htaken, hsub⟩
      · exact Bool.eq_false_iff.mpr ‹_›
    · exact Bool.eq_false_iff.mpr ‹_›

/-- A name that is picked is a proposal, or one with a number. -/
theorem pick_proposed (taken : String → Bool) (proposals : Nat → String) (tries turn : Nat)
    (k : NameCounters) : ∃ i, (pick taken proposals tries turn k).1 = proposals i ∨
      ∃ n, (pick taken proposals tries turn k).1 = numbered (proposals i) n := by
  induction tries generalizing turn k with
  | zero => exact ⟨turn, .inl rfl⟩
  | succ tries ih =>
    rw [pick]
    split
    · simp only
      split
      · exact ih _ _
      · exact ⟨turn, .inr ⟨_, rfl⟩⟩
    · exact ⟨turn, .inl rfl⟩

end NameCounters

/-! ## Requests for sessions -/

namespace Supervisor

variable {s : Supervisor} {h : Host} {w : SpawnRequest} {draw : Draw} {agent : Agent} {name : String}
  {k : NameCounters}

/-- A running session uses the inbox that a name leads to. -/
def Clashes (s : Supervisor) (name : String) : Prop :=
  ∃ m ∈ s.table, m.isRunning = true ∧ m.session.inbox = InboxId.ofName name

theorem runningWith?_some {t : SessionTable} {inbox : InboxId} {m : Managed}
    (hm : t.runningWith? inbox = some m) :
    m ∈ t ∧ m.isRunning = true ∧ m.session.inbox = inbox := by
  have hmem := List.mem_of_find?_eq_some hm
  have huses := List.find?_some hm
  rw [Bool.and_eq_true, beq_iff_eq] at huses
  exact ⟨(List.mergeSort_perm t _).mem_iff.mp hmem, huses⟩

/-- **A plan is refused only for its inbox**: every plan makes a session. -/
theorem prepare_cases (s : Supervisor) (w : SpawnRequest) (agent : Agent) (name : String)
    (now : Nat) :
    (∃ m ∈ s.table, m.isRunning = true ∧ m.session.inbox = InboxId.ofName name ∧
      s.prepare w agent name now = .error (.sameInbox name m.name)) ∨
    ¬ s.Clashes name ∧ ∃ p, s.prepare w agent name now = .ok p ∧ p.session.name = name ∧
      p.session.agent = agent ∧ p.session.mode = w.mode := by
  obtain ⟨hne, hhead, -⟩ := LaunchPlan.make_head agent w.command s.config.agent w.args
  obtain ⟨session, hmake, -⟩ := Session.make_of_read hne hhead
    (LaunchPlan.texts_read agent w.command s.config.agent w.args) name w.mode s.state
    (UInt64.ofNat now)
  obtain ⟨patterns, rfl⟩ := make_ok hmake
  unfold prepare
  simp only [hmake]
  cases hrunning : s.table.runningWith? (InboxId.ofName name) with
  | some m =>
    obtain ⟨hm, hrun, hinbox⟩ := runningWith?_some hrunning
    exact .inl ⟨m, hm, hrun, hinbox, rfl⟩
  | none =>
    refine .inr ⟨?_, _, rfl, rfl, rfl, rfl⟩
    rintro ⟨m, hm, hrun, hinbox⟩
    exact runningWith?_eq_none hrunning hm hrun hinbox

theorem clearPidFile_error {session : Session} {disk : Disk} {e : RequestError}
    (he : s.clearPidFile session disk = .error e) : ∃ io, e = .stalePidFile io := by
  unfold clearPidFile at he
  split at he
  · cases he
  · cases he
  · rename_i io _ _
    exact ⟨io, (Except.error.inj he).symm⟩

/-- How a request for a session ends whose agent and name have been found. -/
inductive Ends (s : Supervisor) (h : Host) (w : SpawnRequest) (agent : Agent) (name : String)
    (k : NameCounters) : Response × Supervisor × Host → Prop where
  | clash (m : Managed) (hm : m ∈ s.table) (hrun : m.isRunning = true)
      (hinbox : m.session.inbox = InboxId.ofName name) :
      Ends s h w agent name k
        (.error (RequestError.sameInbox name m.name).message, { s with counters := k }, h)
  | stale (e : IoError) (hfree : ¬ s.Clashes name) :
      Ends s h w agent name k
        (.error (RequestError.stalePidFile e).message, { s with counters := k }, h)
  | failed (e : SpawnError) (disk : Disk) (hfree : ¬ s.Clashes name) :
      Ends s h w agent name k
        (.error (RequestError.spawn e).message, { s with counters := k }, h.withDisk disk)
  | started (p : Prepared) (pid : UInt32) (h' : Host) (hfree : ¬ s.Clashes name)
      (hp : s.Planned p) (hname : p.session.name = name) :
      Ends s h w agent name k
        (.spawned name pid agent.name w.mode,
          { s with counters := k, table := s.withStarted p pid }, h')

/-- **How a request for a session ends.** -/
theorem spawn_ends (ha : s.agentFor w = .ok agent) (hn : s.nameFor w draw = .ok (name, k)) :
    Ends s h w agent name k (s.spawn w draw h) := by
  rw [spawn_eq]
  unfold ready
  rw [ha, hn]
  simp only
  rcases ({ s with counters := k } : Supervisor).prepare_cases w agent name h.storage.now with
    ⟨m, hm, hrun, hinbox, hprepare⟩ | ⟨hfree, p, hprepare, rfl, rfl, hmode⟩
  · rw [hprepare]
    exact .clash m hm hrun hinbox
  · have hplan := prepare_planned hprepare
    rw [hprepare]
    simp only
    cases hd : ({ s with counters := k } : Supervisor).clearPidFile p.session h.storage.disk with
    | error e =>
      obtain ⟨io, rfl⟩ := clearPidFile_error hd
      exact .stale io hfree
    | ok disk =>
      simp only [start]
      cases hs : (h.withDisk disk).spawn s.dir p.argv p.size (p.session.exports s.state) with
      | error e => exact .failed e disk hfree
      | ok started =>
        obtain ⟨pid, h'⟩ := started
        show Ends s h w _ _ k (.spawned p.session.name pid p.session.agent.name p.session.mode,
          { s with counters := k, table := s.withStarted p pid }, h')
        rw [hmode]
        exact .started p pid h' hfree ⟨hplan.inbox, hplan.pidFile, hplan.free⟩ rfl

/-! ## Names that nobody gave -/

theorem isTaken_iff {t : SessionTable} {n : String} :
    t.isTaken n = true ↔ ∃ m ∈ t, m.name = n := by
  simp [SessionTable.isTaken, SessionTable.named?]

/-- **A generated name is the name of no record**, whatever is proposed. -/
theorem nameFor_generated (hw : w.name = none) (draw : Draw) :
    ∃ name k, s.nameFor w draw = .ok (name, k) ∧ (∀ m ∈ s.table, m.name ≠ name) ∧
      ∃ i, name = draw.names i ∨ ∃ n, name = NameCounters.numbered (draw.names i) n := by
  have hnames : ∀ n, s.table.isTaken n = true → n ∈ s.table.map Managed.name := fun n hn =>
    List.mem_map.mpr (isTaken_iff.mp hn)
  have hnone : NameCounters.Spent s.counters [] := ⟨List.nodup_nil, fun _ h => by cases h⟩
  have hfree : s.table.isTaken
      (s.counters.pick s.table.isTaken draw.names (s.table.length + 1) 0).1 = false :=
    NameCounters.pick_free hnames hnone (List.nil_subset _) (by simp)
  refine ⟨_, _, by rw [nameFor, hw], fun m hm hname => ?_, NameCounters.pick_proposed ..⟩
  rw [← Bool.not_eq_true, isTaken_iff] at hfree
  exact hfree ⟨m, hm, hname⟩

/-- **A generated name works like the same name when it is given**, if it has no blanks around it:
    only the counters of proposals differ. -/
theorem generated_as_given (hw : w.name = none) (hn : s.nameFor w draw = .ok (name, k))
    (htrim : Text.trim name = name) (hne : name ≠ "") :
    (s.spawn { w with name := some name } draw h).1 = (s.spawn w draw h).1 ∧
      (s.spawn { w with name := some name } draw h).2.1.table = (s.spawn w draw h).2.1.table ∧
      (s.spawn { w with name := some name } draw h).2.2 = (s.spawn w draw h).2.2 := by
  have hgiven : s.nameFor { w with name := some name } draw = .ok (name, s.counters) := by
    obtain ⟨name', k', hn', hfree, -⟩ := nameFor_generated (s := s) hw draw
    obtain ⟨rfl, -⟩ := Prod.mk.inj (Except.ok.inj (hn'.symm.trans hn))
    have hnone : s.table.named? name' = none := by
      rw [SessionTable.named?, List.find?_eq_none]
      exact fun m hm => by simpa using hfree m hm
    simp [nameFor, htrim, hne, hnone]
  have hagent : s.agentFor { w with name := some name } = s.agentFor w := rfl
  have hprepare (agent : Agent) (now : Nat) :
      ({ s with counters := k } : Supervisor).prepare w agent name now =
        s.prepare { w with name := some name } agent name now := rfl
  have hclear (session : Session) (disk : Disk) :
      ({ s with counters := k } : Supervisor).clearPidFile session disk =
        s.clearPidFile session disk := rfl
  rw [spawn_eq, spawn_eq]
  unfold ready
  rw [hagent, hgiven, hn]
  cases s.agentFor w with
  | error e => exact ⟨rfl, rfl, rfl⟩
  | ok agent =>
    simp only [hprepare]
    cases s.prepare { w with name := some name } agent name h.storage.now with
    | error e => exact ⟨rfl, rfl, rfl⟩
    | ok p =>
      simp only [hclear]
      cases s.clearPidFile p.session h.storage.disk with
      | error e => exact ⟨rfl, rfl, rfl⟩
      | ok disk =>
        simp only [start]
        cases (h.withDisk disk).spawn s.dir p.argv p.size (p.session.exports s.state) with
        | error e => exact ⟨rfl, rfl, rfl⟩
        | ok started => exact ⟨rfl, rfl, rfl⟩

/-- **Generated names**, for every reachable scene and all proposals. A request without a name gets
    a proposal, or one with a number, that no record has as its name. It is refused because of
    another session exactly if a running one uses the inbox that the name leads to. Otherwise only
    its launch can fail; and when it has worked, the records that are gone are those of the ended
    sessions that used this inbox. There are none if the names are all inbox names themselves. -/
theorem generated_name {x : Scene} (hx : Scene.Reachable x) (hw : w.name = none)
    (ha : x.1.agentFor w = .ok agent) (draw : Draw) :
    ∃ name k, x.1.nameFor w draw = .ok (name, k) ∧
      (∃ i, name = draw.names i ∨ ∃ n, name = NameCounters.numbered (draw.names i) n) ∧
      (∀ m ∈ x.1.table, m.name ≠ name) ∧
      (x.1.Clashes name → ∃ m ∈ x.1.table, m.isRunning = true ∧
        m.session.inbox = InboxId.ofName name ∧
        x.1.spawn w draw x.2 =
          (.error (RequestError.sameInbox name m.name).message, { x.1 with counters := k }, x.2)) ∧
      (¬ x.1.Clashes name →
        (∃ e : RequestError, ((∃ io, e = .stalePidFile io) ∨ ∃ failure, e = .spawn failure) ∧
          (x.1.spawn w draw x.2).1 = .error e.message ∧
          (x.1.spawn w draw x.2).2.1.table = x.1.table) ∨
        (∃ pid, (x.1.spawn w draw x.2).1 = .spawned name pid agent.name w.mode) ∧
          ∀ m ∈ x.1.table, m ∈ (x.1.spawn w draw x.2).2.1.table ↔
            m.session.inbox ≠ InboxId.ofName name) ∧
      (InboxId.Canonical name.toList → (∀ m ∈ x.1.table, InboxId.Canonical m.name.toList) →
        ∀ m ∈ x.1.table, m.session.inbox ≠ InboxId.ofName name) := by
  obtain ⟨s, h⟩ := x
  obtain ⟨name, k, hn, hfree, hproposed⟩ := nameFor_generated (s := s) hw draw
  refine ⟨name, k, hn, hproposed, hfree, ?_, ?_, ?_⟩
  · intro hclash
    have hends := spawn_ends (h := h) ha hn
    generalize s.spawn w draw h = r at hends
    cases hends with
    | clash m hm hrun hinbox => exact ⟨m, hm, hrun, hinbox, rfl⟩
    | stale _ hnot => exact absurd hclash hnot
    | failed _ _ hnot => exact absurd hclash hnot
    | started _ _ _ hnot => exact absurd hclash hnot
  · intro hnot
    have hends := spawn_ends (h := h) ha hn
    generalize s.spawn w draw h = r at hends
    cases hends with
    | clash m hm hrun hinbox => exact absurd ⟨m, hm, hrun, hinbox⟩ hnot
    | stale e => exact .inl ⟨.stalePidFile e, .inl ⟨e, rfl⟩, rfl, rfl⟩
    | failed e disk => exact .inl ⟨.spawn e, .inr ⟨e, rfl⟩, rfl, rfl⟩
    | started p pid h' _ hp hname =>
      refine .inr ⟨⟨pid, rfl⟩, fun m hm => ?_⟩
      rw [Scene.mem_withStarted, hp.inbox, hname]
      constructor
      · rintro (rfl | ⟨-, -, hinbox⟩)
        · exact absurd hname (hfree _ hm)
        · exact hinbox
      · exact fun hinbox => .inr ⟨hm, hfree m hm, hinbox⟩
  · intro hcanonical hall m hm hinbox
    rw [hx.tidy.inbox m hm, InboxId.ofName_eq_self.mpr (hall m hm),
      InboxId.ofName_eq_self.mpr hcanonical] at hinbox
    exact hfree m hm (congrArg InboxId.text hinbox)

/-- What chance gives to the requests below: the same proposal again and again. -/
def rusty : Draw := ⟨⟨"m"⟩, fun _ => "rusty-nail"⟩

/-- A request for a session without a name. -/
def nameless : SpawnRequest := { agent := some "claude", command := some "true" }

/-- A request for a session with a blank in its name. -/
def rustyNail : Request := .spawn { nameless with name := some "rusty nail" }

/-- The scene after that request. -/
def nailed : Scene := (Scene.bare.handle rusty { storage := { now := 0 } } rustyNail).2

theorem nailed_reachable : Scene.Reachable nailed :=
  .intro _ _ _ _ _ Scene.bare _ _ Scene.openAt_bare
    (.cons (.request Scene.bare _ rusty rustyNail) (.nil nailed))

/-- The scene when that session has ended and has been reaped. -/
def pulled : Scene :=
  nailed.1.drain { nailed.2 with children := nailed.2.children.map fun c => c.finish (.exit 0) }

theorem pulled_reachable : Scene.Reachable pulled := nailed_reachable.looked _

theorem generated_name_rusty :
    Scene.Reachable nailed ∧ ∃ m ∈ nailed.1.table, m.isRunning = true ∧
      m.session.inbox = InboxId.ofName "rusty-nail" ∧
      (nailed.1.spawn nameless rusty nailed.2).1 =
        .error (RequestError.sameInbox "rusty-nail" m.name).message := by
  obtain ⟨ha, hname, hclash⟩ : nailed.1.agentFor nameless = .ok .claude ∧
      nailed.1.nameFor nameless rusty = .ok ("rusty-nail", {}) ∧
      nailed.1.Clashes "rusty-nail" := by
    unfold Clashes
    decide +kernel
  obtain ⟨name, k, hn, -, -, hrefused, -⟩ :=
    generated_name nailed_reachable rfl ha rusty
  rw [hname] at hn
  obtain ⟨hsame, -⟩ := Prod.mk.inj (Except.ok.inj hn)
  subst hsame
  obtain ⟨m, hm, hrun, hinbox, hspawn⟩ := hrefused hclash
  refine ⟨nailed_reachable, m, hm, hrun, hinbox, ?_⟩
  rw [hspawn]

/-- **A generated name is refused** because of a running session with another name, and where that
    session has ended, its record is dropped. -/
theorem generated_name_clashes :
    Scene.Reachable nailed ∧ Scene.Reachable pulled ∧
      (nailed.1.spawn nameless rusty nailed.2).1 =
        .error "session name rusty-nail maps to the same inbox as rusty nail" ∧
      pulled.1.table.map Managed.name = ["rusty nail"] ∧
      (pulled.1.spawn nameless rusty pulled.2).2.1.table.map Managed.name = ["rusty-nail"] := by
  refine ⟨nailed_reachable, pulled_reachable, ?_⟩
  decide +kernel

end Supervisor

end AgentSupervisor
