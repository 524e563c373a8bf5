import AgentSupervisor.Proofs.GeneratedNames
import AgentSupervisor.Proofs.InboxLog

/-!
# The environment of a new process

A process is given words and variables, and the system takes neither with a NUL character in it,
and neither if it is too long. The words are looked at for NUL characters before the process is
there. Everything else comes to light in the process itself, which then remains a copy of the
supervisor. Of the texts that end up in variables, the name of the session is the only one that
can have a NUL character.

* `Host.refusal?_eq_none`     : which words a process can be given;
* `Session.areSettable_iff`   : when a session's variables can be set;
* `Child.execError?_sh`       : when the shell can be run;
* `Child.step_start`          : the first step of a new process;
* `started_environment`       : all of it, for every request;
* `nul_name_started`          : a process that cannot be given its environment.
-/

namespace AgentSupervisor

/-- A text without a NUL character. -/
def NulFree (s : String) : Prop := '\x00' ∉ s.toList

instance (s : String) : Decidable (NulFree s) := inferInstanceAs (Decidable ('\x00' ∉ s.toList))

/-! ## Texts -/

theorem NulFree.append {a b : String} (ha : NulFree a) (hb : NulFree b) : NulFree (a ++ b) := by
  rw [NulFree, String.toList_append]
  exact List.not_mem_append ha hb

theorem NulFree.join {dir name : String} (hd : NulFree dir) (hn : NulFree name) :
    NulFree (Path.join dir name) := by
  unfold Path.join
  split
  · exact hn
  · split
    · exact hd.append hn
    · exact (hd.append (by decide)).append hn

namespace Text

variable {c : Char} {cs : List Char}

theorem mem_trimFront (hc : isBlank c = false) : c ∈ trimFront cs ↔ c ∈ cs := by
  constructor
  · intro h
    exact (List.dropWhile_suffix _).subset h
  · intro h
    rw [← List.takeWhile_append_dropWhile (p := isBlank) (l := cs)] at h
    rcases List.mem_append.mp h with h | h
    · rw [List.mem_takeWhile_imp h] at hc
      cases hc
    · exact h

/-- Trimming takes nothing but blanks. -/
theorem mem_trimChars (hc : isBlank c = false) : c ∈ trimChars cs ↔ c ∈ cs := by
  have hback : c ∈ trimBack (trimFront cs) ↔ c ∈ trimFront (trimFront cs).reverse :=
    List.mem_reverse
  rw [trimChars, hback, mem_trimFront hc, List.mem_reverse, mem_trimFront hc]

theorem nulFree_trim {s : String} : NulFree (trim s) ↔ NulFree s := by
  rw [NulFree, trim, String.toList_ofList, mem_trimChars (by decide), NulFree]

end Text

theorem InboxId.nulFree_ofName (name : String) : NulFree (ofName name).text := by
  intro hmem
  have hplain := (canonical_ofName name).plain _ hmem
  exact absurd hplain (by decide)

theorem NameCounters.nulFree_numbered {base : String} (h : NulFree base) (n : Nat) :
    NulFree (numbered base n) := by
  refine (h.append (by decide)).append ?_
  rw [NulFree, String.toList_ofList]
  intro hmem
  exact absurd (Text.decimal_all_digit n _ hmem) (by decide)

/-! ## Words -/

namespace Host

theorem nulAt?_eq_none {s : String} : nulAt? s = none ↔ NulFree s := by
  have hbyte : (0 : UInt8) ∈ Utf8.encode s ↔ '\x00' ∈ s.toList :=
    Utf8.mem_encodeChars_of_low (d := '\x00') (by decide)
  rw [nulAt?, List.findIdx?_eq_none_iff, NulFree, ← hbyte]
  constructor
  · intro h hmem
    exact absurd (h 0 hmem) (by decide)
  · intro h b hb
    rw [beq_eq_false_iff_ne]
    rintro rfl
    exact h hb

/-- **The words that a process can be given**: at least one, and no NUL character in them. -/
theorem refusal?_eq_none {argv : List String} :
    refusal? argv = none ↔ argv ≠ [] ∧ ∀ word ∈ argv, NulFree word := by
  cases argv with
  | nil => simp [refusal?]
  | cons word argv =>
    rw [refusal?, Option.map_eq_none_iff, List.findSome?_eq_none_iff]
    · simp [nulAt?_eq_none]
    · simp

theorem spawn_words {h h' : Host} {dir : Place} {argv : List String} {size : WindowSize}
    {vars : Variables} {pid : UInt32} (hs : h.spawn dir argv size vars = .ok (pid, h')) :
    ∀ word ∈ argv, NulFree word := by
  unfold spawn at hs
  split at hs
  · cases hs
  · rename_i hnone
    exact (refusal?_eq_none.mp hnone).2

end Host

/-! ## Variables -/

/-- What can be set under a name under which the empty text can be. -/
theorem Variables.isSettable_iff {name value : String} (hname : isSettable name "" = true) :
    isSettable name value = true ↔ NulFree value := by
  unfold isSettable at hname ⊢
  rw [Bool.and_eq_true] at hname ⊢
  rw [and_iff_right hname.1]
  simp [NulFree]

namespace Session

variable {session : Session} {dir : StateDir}

/-- The texts behind a session's variables have no NUL character, but for its name. -/
theorem exports_nulFree (hdir : NulFree dir.root)
    (hinbox : session.inbox = InboxId.ofName session.name)
    (hpid : session.pidFile = dir.pidFile session.inbox) :
    ∀ v ∈ (session.exports dir).tail, NulFree v.2 := by
  have htext : NulFree session.inbox.text := hinbox ▸ InboxId.nulFree_ofName session.name
  have hfile : NulFree session.pidFile := by
    rw [hpid, StateDir.pidFile, StateDir.pidDir]
    exact (hdir.join (by decide)).join (htext.append (by decide))
  intro v hv
  simp only [exports, List.tail_cons, List.mem_cons, List.not_mem_nil, or_false] at hv
  rcases hv with rfl | rfl | rfl
  · exact hfile
  · exact htext
  · exact hdir.join (by decide)

/-- The names of a session's variables are fit for variables. -/
theorem exports_names : ∀ v ∈ session.exports dir, Variables.isSettable v.1 "" = true := by
  have hnames : ∀ n ∈ [LaunchPlan.sessionVariable, LaunchPlan.pidFileVariable,
      LaunchPlan.inboxVariable, LaunchPlan.inboxDirVariable],
      Variables.isSettable n "" = true := by decide
  intro v hv
  exact hnames v.1 (List.mem_map_of_mem (f := Prod.fst) hv)

/-- **A session's variables can be set** exactly if its name has no NUL character. -/
theorem areSettable_iff (hdir : NulFree dir.root)
    (hinbox : session.inbox = InboxId.ofName session.name)
    (hpid : session.pidFile = dir.pidFile session.inbox) :
    Variables.areSettable (session.exports dir) = true ↔ NulFree session.name := by
  rw [Variables.areSettable, List.all_eq_true]
  constructor
  · intro h
    have hmem : (LaunchPlan.sessionVariable, session.name) ∈ session.exports dir :=
      List.mem_cons_self
    exact (Variables.isSettable_iff (exports_names _ hmem)).mp (h _ hmem)
  · intro hname v hv
    rw [Variables.isSettable_iff (exports_names v hv)]
    rcases List.mem_cons.mp hv with rfl | hv
    · exact hname
    · exact exports_nulFree hdir hinbox hpid v hv

end Session

/-! ## New processes -/

namespace Child

variable {pid : UInt32} {size : WindowSize} {dir : Place} {path : List Place}
  {programs : List String} {vars : Variables} {argv : List String}

/-- The words and the variables of a process are short enough for the system. -/
def Fits (c : Child) : Prop :=
  (∀ word ∈ c.words, (Utf8.encode word).length < wordLimit) ∧
    ∀ v ∈ c.vars, (Utf8.encode (assignment v)).length < wordLimit

theorem fits_iff (c : Child) :
    (c.words.all isShort && c.vars.all (isShort <| assignment ·)) = true ↔ c.Fits := by
  simp [Fits, isShort]

/-- A program is found by its name alone exactly if it is installed. -/
theorem find_program (c : Child) (disk : Disk) {name : String}
    (hname : name.toList.contains '/' = false) :
    (∃ program, c.find disk name = .program program) ↔ name ∈ c.programs := by
  unfold find
  rw [if_neg (by rw [hname]; exact Bool.false_ne_true)]
  by_cases hmem : name ∈ c.programs
  · rw [if_pos (by simpa using hmem)]
    exact iff_of_true ⟨name, rfl⟩ hmem
  · rw [if_neg (by simpa using hmem)]
    refine iff_of_false ?_ hmem
    split <;> exact fun ⟨_, h⟩ => by cases h

/-- **When the shell can be run**: if its words and variables are short enough and it is
    installed. -/
theorem execError?_sh {c : Child} (disk : Disk) (hwords : c.words.head? = some "sh") :
    (c.execError? disk c.words = some .tooLong ↔ ¬ c.Fits) ∧
      (c.execError? disk c.words = none ↔ c.Fits ∧ "sh" ∈ c.programs) := by
  obtain ⟨args, hargs⟩ := List.head?_eq_some_iff.mp hwords
  have hname : "sh".toList.contains '/' = false := by decide
  rw [← fits_iff, ← c.find_program disk hname, hargs, execError?]
  generalize (("sh" :: args).all isShort && c.vars.all (isShort <| assignment ·)) = fits
  cases fits with
  | false => simp
  | true => cases c.find disk "sh" <;> simp

/-- Why a new process remains a copy of the supervisor, if it does: its environment comes first. -/
theorem mishap?_start (disk : Disk) :
    (start pid size dir path programs vars argv).mishap? disk =
      if vars.areSettable then
        ((start pid size dir path programs vars argv).execError? disk argv).map .fails
      else some .panics := rfl

/-- **The first step of a new process**: it takes on its environment and becomes its program,
    unless it remains a copy of the supervisor. -/
theorem step_start (now : Nat) (disk : Disk) :
    (start pid size dir path programs vars argv).step now disk =
      if ((start pid size dir path programs vars argv).mishap? disk).isNone then
        some (become now {} argv
          { start pid size dir path programs vars argv with agenda := [] } disk)
      else none := rfl

/-- **What becomes of a new shell**: why it remains a copy of the supervisor, when it does not,
    and what its first step is. -/
theorem start_goes {c : Child}
    (hc : c = start pid size dir path programs vars argv) (hargv : argv.head? = some "sh") :
    (∀ disk, c.mishap? disk = some .panics ↔ ¬ vars.areSettable = true) ∧
      (∀ disk, c.mishap? disk = some (.fails .tooLong) ↔ vars.areSettable = true ∧ ¬ c.Fits) ∧
      (∀ disk, c.mishap? disk = none ↔
        vars.areSettable = true ∧ c.Fits ∧ "sh" ∈ programs) ∧
      ∀ now disk, c.step now disk =
        if (c.mishap? disk).isNone then
          some (become now {} c.words { c with agenda := [] } disk)
        else none := by
  have hmishap (disk : Disk) : c.mishap? disk =
      if vars.areSettable then (c.execError? disk argv).map .fails else some .panics := by
    rw [hc, mishap?_start]
  have hwords : c.words = argv := by rw [hc]; rfl
  have hprograms : c.programs = programs := by rw [hc]; rfl
  have hexec (disk : Disk) := c.execError?_sh disk (by rw [hwords, hargv])
  rw [hwords, hprograms] at hexec
  refine ⟨fun disk => ?_, fun disk => ?_, fun disk => ?_, fun now disk => ?_⟩
  · rw [hmishap]
    cases vars.areSettable <;> simp
  · rw [hmishap]
    cases vars.areSettable
    · simp
    · simpa using (hexec disk).1
  · rw [hmishap]
    cases vars.areSettable
    · simp
    · simpa using (hexec disk).2
  · rw [hc]
    exact step_start now disk

end Child

namespace Supervisor

variable {s : Supervisor} {w : SpawnRequest} {draw : Draw} {name : String} {k : NameCounters}

/-- A name has a NUL character exactly if it was given one. -/
theorem nulFree_nameFor (hn : s.nameFor w draw = .ok (name, k)) :
    (∀ given ∈ w.name, NulFree name ↔ NulFree given) ∧
      (w.name = none → (∀ i, NulFree (draw.names i)) → NulFree name) := by
  constructor
  · intro given hgiven
    rw [Option.mem_def] at hgiven
    rw [nameFor, hgiven] at hn
    simp only at hn
    split at hn
    · cases hn
    · split at hn
      · cases hn
      · cases hn
        exact Text.nulFree_trim
  · intro hnone hnames
    obtain ⟨name', k', hn', -, i, hproposed⟩ := nameFor_generated (s := s) hnone draw
    obtain ⟨rfl, -⟩ := Prod.mk.inj (Except.ok.inj (hn'.symm.trans hn))
    rcases hproposed with rfl | ⟨n, rfl⟩
    · exact hnames i
    · exact NameCounters.nulFree_numbered (hnames i) n

/-- A session that may be started has the name that was found, and the words of its plan. -/
theorem prepare_words {agent : Agent} {now : Nat} {p : Prepared}
    (hp : s.prepare w agent name now = .ok p) :
    p.session.name = name ∧
      p.argv = (LaunchPlan.make agent w.command s.config.agent w.args).argv := by
  obtain ⟨session, hmake, -, rfl⟩ := prepare_ok hp
  obtain ⟨patterns, rfl⟩ := make_ok hmake
  exact ⟨rfl, rfl⟩

/-- **What a new process is given**, for every request and every configuration. A request is
    answered with an error and no process is there, or a process has been started: then there is no
    NUL character in its words, and none in its variables but for the name of the session. It has
    one exactly if the name that was given has one, and then the environment cannot be set. Nor can
    the program be run if a word or a variable is too long or there is no shell. In both cases the
    process remains a copy of the supervisor and never takes a step; every other one takes on its
    environment and becomes its program. -/
theorem started_environment (hroot : NulFree s.state.root) (w : SpawnRequest) (draw : Draw)
    (h : Host) :
    (∃ e, (s.spawn w draw h).1 = .error e ∧ (s.spawn w draw h).2.2.children = h.children) ∨
    ∃ (p : Prepared) (agent : Agent) (c : Child), s.agentFor w = .ok agent ∧
      (s.spawn w draw h).1 = spawnedResponse p.session c.pid ∧
      (s.spawn w draw h).2.2.children = h.children ++ [c] ∧
      c.words = (LaunchPlan.make agent w.command s.config.agent w.args).argv ∧
      c.vars = p.session.exports s.state ∧
      (∀ word ∈ c.words, NulFree word) ∧
      (∀ v ∈ c.vars, v.1 ≠ LaunchPlan.sessionVariable → NulFree v.2) ∧
      (∀ given ∈ w.name, NulFree p.session.name ↔ NulFree given) ∧
      (w.name = none → (∀ i, NulFree (draw.names i)) → NulFree p.session.name) ∧
      (∀ disk, c.mishap? disk = some .panics ↔ ¬ NulFree p.session.name) ∧
      (∀ disk, c.mishap? disk = some (.fails .tooLong) ↔ NulFree p.session.name ∧ ¬ c.Fits) ∧
      (∀ disk, c.mishap? disk = none ↔
        NulFree p.session.name ∧ c.Fits ∧ "sh" ∈ h.programs) ∧
      (∀ now disk, c.step now disk =
        if (c.mishap? disk).isNone then
          some (Child.become now {} c.words { c with agenda := [] } disk)
        else none) := by
  rw [spawn_eq]
  have hready := s.ready_cases w draw h
  generalize hr : s.ready w draw h = r at hready
  cases hready with
  | refused e k => exact .inl ⟨_, rfl, rfl⟩
  | cleared p k disk hp hd =>
    obtain ⟨agent, name, k', hagent, hname, hprepare⟩ := ready_ok hr
    obtain ⟨rfl, hargv⟩ := prepare_words hprepare
    simp only [start]
    cases hs : (h.withDisk disk).spawn s.dir p.argv p.size (p.session.exports s.state) with
    | error e => exact .inl ⟨_, rfl, rfl⟩
    | ok started =>
      obtain ⟨pid, h'⟩ := started
      obtain ⟨rfl, -, hchildren⟩ := Host.spawn_ok hs
      have hsettable := Session.areSettable_iff hroot hp.inbox hp.pidFile
      have hvalues := Session.exports_nulFree hroot hp.inbox hp.pidFile
      obtain ⟨hgiven, hproposed⟩ := nulFree_nameFor hname
      refine .inr ⟨p, agent, _, hagent, rfl, hchildren, hargv, rfl, Host.spawn_words hs, ?_,
        hgiven, hproposed, ?_⟩
      · intro v hv hne
        rcases List.mem_cons.mp hv with rfl | hv
        · exact absurd rfl hne
        · exact hvalues v hv
      · rw [← hsettable]
        exact Child.start_goes rfl (by rw [hargv]; rfl)

/-- A request for a session with a NUL character in its name. -/
def cutName : SpawnRequest := { nameless with name := some "a\x00b" }

theorem started_environment_cut :
    NulFree Scene.bare.state.root ∧ ∃ c, c.words.length = 3 ∧ (∀ word ∈ c.words, NulFree word) ∧
      (Scene.bare.spawn cutName rusty { storage := { now := 0 } }).2.2.children = [c] ∧
      ∀ now disk, c.mishap? disk = some .panics ∧ c.step now disk = none := by
  have hroot : NulFree Scene.bare.state.root := by decide
  have hspawned : (Scene.bare.spawn cutName rusty { storage := { now := 0 } }).1 =
      .spawned "a\x00b" 4000 "claude" .terminal := by decide +kernel
  rcases started_environment hroot cutName rusty { storage := { now := 0 } } with
    ⟨e, he, -⟩ |
      ⟨p, agent, c, -, -, hchildren, hargv, -, hwords, -, hgiven, -, hpanics, -, -, hstep⟩
  · rw [hspawned] at he
    cases he
  · refine ⟨hroot, c, by rw [hargv]; rfl, hwords, hchildren, fun now disk => ?_⟩
    have hcut : ¬ NulFree p.session.name := fun hfree =>
      absurd ((hgiven _ rfl).mp hfree) (by decide)
    have hmishap := (hpanics disk).mpr hcut
    exact ⟨hmishap, by rw [hstep, hmishap]; rfl⟩

/-- **A process that cannot be given its environment**: the request is answered as one that has
    worked, and the process has a NUL character in a variable and takes no step. -/
theorem nul_name_started :
    (Scene.bare.spawn cutName rusty { storage := { now := 0 } }).1 =
      .spawned "a\x00b" 4000 "claude" .terminal ∧
    (Scene.bare.spawn cutName rusty { storage := { now := 0 } }).2.2.children.map Child.vars =
      [[("CORRAL_SESSION", "a\x00b"), ("CORRAL_PID_FILE", "/s/pids/a-b.pid"),
        ("CORRAL_INBOX", "a-b"), ("CORRAL_INBOX_DIR", "/s/inbox")]] ∧
    (Scene.bare.spawn cutName rusty { storage := { now := 0 } }).2.2.children.map
      (fun c => (c.step 0 {}).isSome) = [false] := by
  have hspawned : (Scene.bare.spawn cutName rusty { storage := { now := 0 } }).1 =
      .spawned "a\x00b" 4000 "claude" .terminal := by decide +kernel
  refine ⟨hspawned, ?_, ?_⟩
  · decide +kernel
  · decide +kernel

end Supervisor

end AgentSupervisor
