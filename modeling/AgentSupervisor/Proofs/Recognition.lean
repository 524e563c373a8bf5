import AgentSupervisor.Proofs.PidFiles
import AgentSupervisor.Proofs.WholeWords

/-!
# Sessions and their own processes

A session recognises its process by the name of a program: the last name of the first word of
its command. The shell that is started shows the whole command, and the program that it becomes
shows that word in front, or another path to a file of that name.

* `Path.fileName?_last`      : the last name of a path;
* `LaunchPlan.make_named`    : a plan has a pattern for the last name of its first word;
* `Session.recognises_own`   : every session recognises its own process;
* `Session.shows_started`    : a process that has been started is one.
-/

namespace AgentSupervisor

/-! ## First words -/

namespace Text

variable {cs a b : List Char} {c : Char}

theorem firstWord_cons (hc : isBlank c = false) (cs : List Char) :
    firstWord (c :: cs) = (c :: cs).takeWhile fun c => !isBlank c := by
  rw [firstWord, List.dropWhile_cons_of_neg (by simp [hc])]

/-- Behind the first word stands a blank or nothing. -/
theorem firstWord_rest (h : ∀ c ∈ cs.head?, isBlank c = false) :
    ∃ y, cs = firstWord cs ++ y ∧ ∀ c ∈ y.head?, isBlank c = true := by
  cases cs with
  | nil => exact ⟨[], rfl, by simp⟩
  | cons c cs =>
    refine ⟨(c :: cs).dropWhile fun c => !isBlank c, ?_, fun d hd => ?_⟩
    · rw [firstWord_cons (h c rfl), List.takeWhile_append_dropWhile]
    · have hnot := List.head?_dropWhile_not (fun c => !isBlank c) (c :: cs)
      rw [hd] at hnot
      simpa using hnot

/-- What stands behind a blank is not in the first word. -/
theorem firstWord_append (hne : cs ≠ []) (h : ∀ c ∈ cs.head?, isBlank c = false)
    (b : List Char) : firstWord (cs ++ ' ' :: b) = firstWord cs := by
  obtain ⟨c, r, rfl⟩ := List.exists_cons_of_ne_nil hne
  rw [List.cons_append, firstWord_cons (h c rfl), firstWord_cons (h c rfl), ← List.cons_append,
    List.takeWhile_append]
  split
  · rename_i hall
    rw [List.takeWhile_cons_of_neg (by decide), List.append_nil]
    exact ((List.takeWhile_prefix _).eq_of_length hall).symm
  · rfl

theorem head_trimChars (cs : List Char) : ∀ c ∈ (trimChars cs).head?, isBlank c = false := by
  intro c hc
  rw [trimChars] at hc
  cases hcs : trimFront cs with
  | nil =>
    rw [hcs] at hc
    cases hc
  | cons d r =>
    have hd := trimFront_head hcs
    rw [hcs, trimBack_cons hd] at hc
    cases hc
    exact hd

end Text

/-! ## Last names -/

namespace Path

variable {w dir name : List Char}

/-- A path can be cut behind its last slash. -/
theorem exists_last (w : List Char) :
    ∃ dir name, w = dir ++ name ∧ (∀ c ∈ dir.getLast?, c = '/') ∧ '/' ∉ name := by
  induction w with
  | nil => exact ⟨[], [], rfl, by simp, by simp⟩
  | cons c w ih =>
    obtain ⟨dir, name, rfl, hdir, hname⟩ := ih
    cases dir with
    | nil =>
      by_cases hc : c = '/'
      · exact ⟨[c], name, rfl, by simpa using hc, hname⟩
      · exact ⟨[], c :: name, rfl, by simp, by simp [hname, Ne.symm hc]⟩
    | cons d dir =>
      refine ⟨c :: d :: dir, name, rfl, ?_, hname⟩
      rwa [List.getLast?_cons_cons]

/-- A name behind the last slash is the last name of the path. -/
theorem fileName?_append (hdir : ∀ c ∈ dir.getLast?, c = '/') (h : IsName (String.ofList name)) :
    fileName? (dir ++ name) = some name := by
  obtain ⟨front, hnames⟩ : ∃ front, names (dir ++ name) = front ++ [name] := by
    have hname := h.names
    rw [String.toList_ofList] at hname
    rcases List.eq_nil_or_concat dir with rfl | ⟨d, c, rfl⟩
    · exact ⟨[], hname⟩
    · obtain rfl : c = '/' := hdir c (by simp)
      refine ⟨names d, ?_⟩
      rw [List.concat_eq_append, List.append_assoc, List.singleton_append, names_append, hname]
  have hdots := h.dots
  rw [String.toList_ofList] at hdots
  simp only [fileName?, hnames, List.getLast?_concat, if_neg hdots]

/-- **The last name of a path** is what stands behind its last slash, unless that is nothing or
    only dots. -/
theorem fileName?_last (hslash : ¬ ['/'] <:+ w) (hhere : ¬ ['/', '.'] <:+ w)
    (hup : ¬ ['.', '.'] <:+ w) (hdot : w ≠ ['.']) (hne : w ≠ []) :
    ∃ dir name, w = dir ++ name ∧ (∀ c ∈ dir.getLast?, c = '/') ∧ fileName? w = some name := by
  obtain ⟨dir, name, rfl, hdir, hname⟩ := exists_last w
  have hends {t : List Char} : dir ≠ [] → ['/'] ++ t <:+ dir ++ t := fun hd => by
    obtain ⟨d, c, rfl⟩ := (List.eq_nil_or_concat dir).resolve_left hd
    obtain rfl : c = '/' := hdir c (by simp)
    exact ⟨d, by simp⟩
  refine ⟨dir, name, rfl, hdir, fileName?_append hdir ⟨?_, ?_, ?_, ?_⟩⟩
  all_goals rw [String.toList_ofList]
  · exact hname
  · rintro rfl
    rw [List.append_nil] at hne
    exact hslash (hends (t := []) hne)
  · rintro rfl
    rcases eq_or_ne dir [] with rfl | hd
    · exact hdot rfl
    · exact hhere (hends (t := ['.']) hd)
  · rintro rfl
    exact hup (List.suffix_append dir _)

end Path

/-! ## Plans -/

namespace Pattern

/-- Texts of patterns that can all be read are read one by one. -/
theorem mapM_ofString? {texts : List String} (h : ∀ t ∈ texts, (ofString? t).isSome = true) :
    ∃ ps, texts.mapM ofString? = some ps ∧ ∀ t ∈ texts, ∀ p, ofString? t = some p → p ∈ ps := by
  induction texts with
  | nil => exact ⟨[], rfl, by simp⟩
  | cons t texts ih =>
    obtain ⟨p, hp⟩ := Option.isSome_iff_exists.mp (h t List.mem_cons_self)
    obtain ⟨ps, hps, hmem⟩ := ih fun t ht => h t (List.mem_cons_of_mem _ ht)
    refine ⟨p :: ps, by rw [List.mapM_cons, hp, hps]; rfl, fun t' ht' q hq => ?_⟩
    rcases List.mem_cons.mp ht' with rfl | ht'
    · rw [hp] at hq
      cases hq
      exact List.mem_cons_self
    · exact List.mem_cons_of_mem p (hmem t' ht' q hq)

end Pattern

namespace Agent

/-- The patterns of every agent can be read. -/
theorem patterns_read (a : Agent) : ∀ t ∈ a.patterns, (Pattern.ofString? t).isSome = true := by
  cases a <;> decide +kernel

/-- The program that an agent's own command runs. -/
def program (a : Agent) : List Char := Text.firstWord a.defaultCommand.toList

/-- Every agent has a pattern for the program of its own command. -/
theorem pattern_program (a : Agent) : ∃ t ∈ a.patterns,
    Pattern.ofString? t = some (Pattern.wholeWord a.program) := by
  refine ⟨wordPattern (String.ofList a.program), ?_, ?_⟩
  all_goals cases a <;> decide +kernel

theorem fileName?_program (a : Agent) : Path.fileName? a.program = some a.program := by
  cases a <;> decide +kernel

theorem head_defaultCommand (a : Agent) :
    ∀ c ∈ a.defaultCommand.toList.head?, Text.isBlank c = false := by
  have hall : a.defaultCommand.toList.head?.all (fun c => !Text.isBlank c) = true := by
    cases a <;> decide +kernel
  intro c hc
  simpa using (Option.all_eq_true _ _).mp hall c hc

end Agent

namespace LaunchPlan

variable {agent : Agent} {override : Option String} {config : AgentConfig}
  {arguments : Option String} {name : List Char}

/-- The command of a plan before its arguments. -/
def base (agent : Agent) (override : Option String) (config : AgentConfig) : String :=
  (custom? agent override config).getD agent.defaultCommand

theorem nonblank?_some {s t : String} (h : nonblank? s = some t) :
    t.toList ≠ [] ∧ ∀ c ∈ t.toList.head?, Text.isBlank c = false := by
  unfold nonblank? at h
  simp only at h
  split at h
  · cases h
  · rename_i hne
    cases h
    refine ⟨by simpa using hne, ?_⟩
    rw [Text.trim, String.toList_ofList]
    exact Text.head_trimChars s.toList

/-- A command begins with a word. -/
theorem base_head (agent : Agent) (override : Option String) (config : AgentConfig) :
    (base agent override config).toList ≠ [] ∧
      ∀ c ∈ (base agent override config).toList.head?, Text.isBlank c = false := by
  unfold base
  cases hc : custom? agent override config with
  | none => exact ⟨by cases agent <;> decide, agent.head_defaultCommand⟩
  | some b =>
    obtain ⟨s, -, hs⟩ := Option.bind_eq_some_iff.mp hc
    exact nonblank?_some hs

/-- Arguments stand behind a command and a blank. -/
theorem command_cases (agent : Agent) (override : Option String) (config : AgentConfig)
    (arguments : Option String) :
    (make agent override config arguments).command = base agent override config ∨
      ∃ a, (make agent override config arguments).command.toList =
        (base agent override config).toList ++ ' ' :: a := by
  show withArguments (base agent override config) arguments = _ ∨
    ∃ a, (withArguments (base agent override config) arguments).toList = _
  unfold withArguments
  cases arguments.bind nonblank? with
  | none => exact .inl rfl
  | some a =>
    refine .inr ⟨a.toList, ?_⟩
    rw [String.toList_append, String.toList_append, List.append_assoc]
    rfl

/-- A plan begins with the first word of its command. -/
theorem make_head (agent : Agent) (override : Option String) (config : AgentConfig)
    (arguments : Option String) :
    (make agent override config arguments).command.toList ≠ [] ∧
      (∀ c ∈ (make agent override config arguments).command.toList.head?,
        Text.isBlank c = false) ∧
      Text.firstWord (make agent override config arguments).command.toList =
        Text.firstWord (base agent override config).toList := by
  obtain ⟨hne, hhead⟩ := base_head agent override config
  rcases command_cases agent override config arguments with h | ⟨a, h⟩
  · rw [h]
    exact ⟨hne, hhead, rfl⟩
  · rw [h, Text.firstWord_append hne hhead, List.head?_append_of_ne_nil _ hne]
    exact ⟨by simp, hhead, rfl⟩

/-- The pattern for the program of a command can be read. -/
theorem programPattern?_read {b t : String} (h : programPattern? b = some t) :
    ∃ name, Path.fileName? (Text.firstWord b.toList) = some name ∧
      Pattern.ofString? t = some (Pattern.wholeWord name) := by
  unfold programPattern? at h
  split at h
  · cases h
  · obtain ⟨name, hname, rfl⟩ := Option.map_eq_some_iff.mp h
    exact ⟨name, hname, Pattern.ofString?_wordPattern name⟩

theorem programPattern?_eq {b : String}
    (h : Path.fileName? (Text.firstWord b.toList) = some name) :
    programPattern? b = some (Agent.wordPattern (String.ofList (Pattern.quoteText name))) := by
  unfold programPattern?
  split
  · rename_i hnil
    rw [hnil] at h
    cases h
  · rw [h]
    rfl

/-- The texts of the patterns of a session. -/
def texts (agent : Agent) (plan : LaunchPlan) : List String := agent.patterns ++ plan.extraPatterns

/-- All patterns of a plan can be read. -/
theorem texts_read (agent : Agent) (override : Option String) (config : AgentConfig)
    (arguments : Option String) :
    ∀ t ∈ texts agent (make agent override config arguments),
      (Pattern.ofString? t).isSome = true := by
  intro t ht
  rcases List.mem_append.mp ht with ht | ht
  · exact agent.patterns_read t ht
  · obtain ⟨b, -, hb⟩ := Option.bind_eq_some_iff.mp (Option.mem_toList.mp ht)
    obtain ⟨name, -, hread⟩ := programPattern?_read hb
    rw [hread]
    rfl

/-- **A plan has a pattern for its program**, whether the command is the agent's own or not. -/
theorem make_named (hname : Path.fileName?
      (Text.firstWord (make agent override config arguments).command.toList) = some name) :
    ∃ t ∈ texts agent (make agent override config arguments),
      Pattern.ofString? t = some (Pattern.wholeWord name) := by
  obtain ⟨-, -, hfirst⟩ := make_head agent override config arguments
  rw [hfirst, base] at hname
  cases hc : custom? agent override config with
  | none =>
    rw [hc, Option.getD_none] at hname
    have hown := agent.fileName?_program
    rw [Agent.program, hname] at hown
    cases hown
    obtain ⟨t, ht, hread⟩ := agent.pattern_program
    exact ⟨t, List.mem_append_left _ ht, hread⟩
  | some b =>
    rw [hc, Option.getD_some] at hname
    refine ⟨_, List.mem_append_right _ ?_, Pattern.ofString?_wordPattern name⟩
    show _ ∈ ((custom? agent override config).bind programPattern?).toList
    rw [hc, Option.bind_some, programPattern?_eq hname]
    exact List.mem_singleton_self _

/-- The command line of the shell that is started. -/
def shellLine (p : LaunchPlan) : String := " ".intercalate p.argv

/-- The shell shows the command behind a blank. -/
theorem toList_shellLine (p : LaunchPlan) :
    ∃ front, p.shellLine.toList = front ++ ' ' :: p.command.toList := by
  have hline : p.shellLine =
      "sh" ++ " " ++ "-c" ++ " " ++
        ("echo $$ > \"$" ++ pidFileVariable ++ "\" && exec " ++ p.command) := rfl
  have hexec : "\" && exec ".toList = "\" && exec".toList ++ [' '] := by decide
  refine ⟨("sh" ++ " " ++ "-c" ++ " " ++ ("echo $$ > \"$" ++ pidFileVariable)).toList ++
    "\" && exec".toList, ?_⟩
  simp only [hline, String.toList_append, hexec, List.append_assoc, List.singleton_append]

end LaunchPlan

/-! ## Sessions -/

namespace Session

variable {agent : Agent} {plan : LaunchPlan} {name : List Char}

/-- A program shows its own word in front, or another path to a file of the same name, and then
    nothing more or a blank. -/
def RunsAs (word line : List Char) : Prop :=
  ∃ program rest, line = program ++ rest ∧
    (program = word ∨
      ∃ dir name, Path.fileName? word = some name ∧ program = dir ++ '/' :: name) ∧
    ∀ c ∈ rest.head?, Text.isBlank c = true

/-- What a session's process may show. The command line of a process that is there can be
    unreadable. -/
def Shows (plan : LaunchPlan) (table : ProcessTable) (pid : UInt32) : Prop :=
  table pid = some none ∨ ∃ line, table pid = some (some line) ∧
    (line = plan.shellLine ∨ RunsAs (Text.firstWord plan.command.toList) line.toList)

/-- A plan makes a session with all its patterns. -/
theorem make_of_read (hplan : plan.command.toList ≠ [])
    (hhead : ∀ c ∈ plan.command.toList.head?, Text.isBlank c = false)
    (hread : ∀ t ∈ LaunchPlan.texts agent plan, (Pattern.ofString? t).isSome = true)
    (n : String) (mode : DeliveryMode) (dir : StateDir) (now : UInt64) :
    ∃ session, make n agent mode plan dir now = .ok session ∧
      ∀ t ∈ LaunchPlan.texts agent plan, ∀ p, Pattern.ofString? t = some p →
        p ∈ session.patterns := by
  have hblank : Text.isBlankString plan.command = false := by
    obtain ⟨c, r, hc⟩ := List.exists_cons_of_ne_nil hplan
    rw [Text.isBlankString, hc, List.all_cons, hhead c (by rw [hc]; rfl), Bool.false_and]
  obtain ⟨ps, hps, hmem⟩ := Pattern.mapM_ofString? hread
  rw [LaunchPlan.texts] at hps
  unfold make
  simp only [hblank, Bool.false_eq_true, if_false, hps]
  exact ⟨_, rfl, hmem⟩

theorem recognises_of_word {session : Session} (hp : Pattern.wholeWord name ∈ session.patterns)
    {line : String} (hw : Pattern.HasWord name line.toList) : session.recognises line = true :=
  List.any_eq_true.mpr ⟨_, hp, (Pattern.accepts_wholeWord name line).mpr hw⟩

/-- The last name of a path stands as a word behind the path to it. -/
theorem hasWord_program (front dir : List Char) {rest : List Char}
    (hfront : ∀ c ∈ front.getLast?, c = '/' ∨ Text.isBlank c = true)
    (hdir : ∀ c ∈ dir.getLast?, c = '/') (hrest : ∀ c ∈ rest.head?, Text.isBlank c = true) :
    Pattern.HasWord name (front ++ (dir ++ name ++ rest)) := by
  refine ⟨front ++ dir, rest, by simp only [List.append_assoc], fun c hc => ?_, hrest⟩
  rcases List.eq_nil_or_concat dir with rfl | ⟨d, e, rfl⟩
  · rw [List.append_nil] at hc
    exact hfront c hc
  · rw [List.concat_eq_append] at hc hdir
    rw [← List.append_assoc, List.getLast?_concat] at hc
    exact .inl (hdir c (by rw [List.getLast?_concat]; exact hc))

/-- The first word of a command ends in the last name of a path. -/
theorem word_named {word rest : List Char} (hplan : plan.command.toList = word ++ rest)
    (hne : plan.command.toList ≠ [])
    (hhead : ∀ c ∈ plan.command.toList.head?, Text.isBlank c = false)
    (hrest : ∀ c ∈ rest.head?, Text.isBlank c = true) (hslash : ¬ ['/'] <:+ word)
    (hhere : ¬ ['/', '.'] <:+ word) (hup : ¬ ['.', '.'] <:+ word) (hdot : word ≠ ['.']) :
    ∃ dir name, word = dir ++ name ∧ (∀ c ∈ dir.getLast?, c = '/') ∧
      Path.fileName? word = some name := by
  refine Path.fileName?_last hslash hhere hup hdot ?_
  rintro rfl
  obtain ⟨c, r, hc⟩ := List.exists_cons_of_ne_nil hne
  have hnot := hhead c (by rw [hc]; rfl)
  rw [hrest c (by rw [← List.nil_append rest, ← hplan, hc]; rfl)] at hnot
  cases hnot

/-- **A session recognises the program of its plan** when it has a pattern for it: as the shell
    shows it, and as the program does. -/
theorem recognises_plan (session : Session) {word : List Char}
    (hw : Text.firstWord plan.command.toList = word) (hne : plan.command.toList ≠ [])
    (hhead : ∀ c ∈ plan.command.toList.head?, Text.isBlank c = false)
    (hslash : ¬ ['/'] <:+ word) (hhere : ¬ ['/', '.'] <:+ word) (hup : ¬ ['.', '.'] <:+ word)
    (hdot : word ≠ ['.'])
    (hp : ∀ name, Path.fileName? word = some name → Pattern.wholeWord name ∈ session.patterns) :
    session.recognises plan.shellLine = true ∧
      ∀ line, RunsAs word line.toList → session.recognises line = true := by
  obtain ⟨rest, hcommand, hrest⟩ := Text.firstWord_rest hhead
  rw [hw] at hcommand
  obtain ⟨path, name, rfl, hpath, hname⟩ :=
    word_named hcommand hne hhead hrest hslash hhere hup hdot
  have hown := hp name hname
  constructor
  · obtain ⟨front, hline⟩ := plan.toList_shellLine
    have hparts : plan.shellLine.toList = (front ++ [' ']) ++ (path ++ name ++ rest) := by
      rw [hline, hcommand, List.append_assoc front, List.singleton_append]
    refine recognises_of_word hown ?_
    rw [hparts]
    refine hasWord_program _ _ (fun c hc => .inr ?_) hpath hrest
    obtain rfl : ' ' = c := by simpa using hc
    decide
  · rintro line ⟨program, after, hline, hprogram, hafter⟩
    refine recognises_of_word hown ?_
    rw [hline]
    rcases hprogram with rfl | ⟨dir, name', hname', rfl⟩
    · exact hasWord_program [] _ (by simp) hpath hafter
    · obtain rfl := Option.some.inj (hname.symm.trans hname')
      have hslashed : Pattern.HasWord name ([] ++ (dir ++ ['/'] ++ name ++ after)) :=
        hasWord_program [] (dir ++ ['/']) (by simp) (by simp) hafter
      simpa using hslashed

/-- A number in a PID file that is that of the session's process is reported alive. -/
theorem health_of_shows {session : Session} (hshell : session.recognises plan.shellLine = true)
    (hruns : ∀ line, RunsAs (Text.firstWord plan.command.toList) line.toList →
      session.recognises line = true) {s : Supervisor} {h : Host} {pid : UInt32} (hpid : pid ≠ 0)
    (hfile : PidFiles.fileOf s h session = some (PidFiles.numberFile pid))
    (hshows : Shows plan h.table pid) (policy : RetryPolicy) :
    s.health h session policy = .ok ⟨.alive pid, 1⟩ := by
  have hpos : 0 < pid.toNat := Nat.pos_of_ne_zero fun h0 => hpid (UInt32.toNat_inj.mp h0)
  have hread : PidRead.ofFile h.storage.disk (s.pidPlace session) = .ok (.found pid) := by
    rw [PidRead.ofFile_of_seen hfile, PidRead.ofText_textOf hpos]
  have hjudge : Health.judge h.table session.patterns pid = .alive pid := by
    unfold Health.judge
    rcases hshows with hnone | ⟨line, hline, hshows⟩
    · rw [hnone]
    · have hown : Pattern.acceptsAny session.patterns line = true := by
        rcases hshows with rfl | hrunsAs
        · exact hshell
        · exact hruns line hrunsAs
      rw [hline]
      simp only [hown, if_true]
  have hfirst : Health.First
      (fun _ => PidRead.ofFile h.storage.disk (s.pidPlace session)) 1 :=
    ⟨Nat.le_refl 1, .inr (.inl ⟨pid, hread⟩), fun j h1 h2 => by omega⟩
  have hcheck : s.health h session policy =
      Health.settledBy h.table session.patterns 1
        (PidRead.ofFile h.storage.disk (s.pidPlace session)) :=
    Health.check_first (Health.attempts_pos policy) hfirst
  rw [hcheck, hread, Health.settledBy, hjudge]

/-- **Every session recognises its own process.** The command line of the shell that is started
    is recognised, and so is that of every program that runs under the last name of the command's
    first word. So a check that finds the number of the process is a check that finds it alive. -/
theorem recognises_own (agent : Agent) (override : Option String) (config : AgentConfig)
    (arguments : Option String) (n : String) (mode : DeliveryMode) (dir : StateDir) (now : UInt64) :
    let plan := LaunchPlan.make agent override config arguments
    let word := Text.firstWord plan.command.toList
    ¬ ['/'] <:+ word → ¬ ['/', '.'] <:+ word → ¬ ['.', '.'] <:+ word → word ≠ ['.'] →
    ∃ session, make n agent mode plan dir now = .ok session ∧
      session.recognises plan.shellLine = true ∧
      (∀ line, RunsAs word line.toList → session.recognises line = true) ∧
      ∀ (s : Supervisor) (h : Host) (policy : RetryPolicy) (pid : UInt32), pid ≠ 0 →
        PidFiles.fileOf s h session = some (PidFiles.numberFile pid) →
        Shows plan h.table pid → s.health h session policy = .ok ⟨.alive pid, 1⟩ := by
  intro plan word hslash hhere hup hdot
  obtain ⟨hne, hhead, -⟩ := LaunchPlan.make_head agent override config arguments
  obtain ⟨session, hsession, hmem⟩ := make_of_read hne hhead
    (LaunchPlan.texts_read agent override config arguments) n mode dir now
  obtain ⟨hshell, hruns⟩ := recognises_plan session rfl hne hhead hslash hhere hup
    hdot fun name hname => by
      obtain ⟨t, ht, hread⟩ := LaunchPlan.make_named hname
      exact hmem t ht _ hread
  exact ⟨session, hsession, hshell, hruns, fun s h policy pid hpid hfile hshows =>
    health_of_shows hshell hruns hpid hfile hshows policy⟩

/-- A process shows what it was started with until it becomes another program. -/
theorem shows_started {h h' : Host} {dir : Place} {size : WindowSize} {vars : Variables}
    {pid : UInt32} (hspawn : h.spawn dir plan.argv size vars = .ok (pid, h'))
    (hfree : h.child? pid = none) (hinit : pid ≠ Host.initPid) : Shows plan h'.table pid := by
  have hchild := Host.child?_spawn hspawn pid
  rw [hfree, Option.none_or, if_pos rfl] at hchild
  have hline : (Child.start pid size dir h.path h.programs vars plan.argv).shown =
      plan.shellLine := by
    rw [Child.shown, if_neg (by simp [Child.start]), Child.commandLine, Child.start, LaunchPlan.shellLine, List.filter_eq_self.mpr]
    intro word hword
    simp only [LaunchPlan.argv, List.mem_cons, List.not_mem_nil, or_false] at hword
    rcases hword with rfl | rfl | rfl <;> simp
  refine .inr ⟨plan.shellLine, ?_, .inl rfl⟩
  simp only [Host.table, if_neg hinit, hchild, hline]

/-- A command whose program has characters with a meaning in patterns, and a no-break space. -/
def oddCommand : String := "  /opt/../my.agent[v2]+(1)\u00a0--fast"

/-- The plan for that command with arguments. -/
def oddPlan : LaunchPlan := LaunchPlan.make .claude (some oddCommand) {} (some " -x ")

/-- A host on which that process has written its number and has become its program. -/
def oddHost : Host where
  storage := { now := 0, disk := ⟨[(["s"], .directory), (["s", "pids"], .directory),
    (["s", "pids", "a-b.pid"], PidFiles.numberFile 4000)]⟩ }
  children := [{ pid := 4000, words := ["/opt/../my.agent[v2]+(1)", "--fast", "-x"] }]

/-- Its session recognises it, also under another path. -/
theorem recognises_own_odd :
    ∃ session, make "a b" .claude .terminal oddPlan ⟨"/s"⟩ 0 = .ok session ∧
      session.recognises "/usr/bin/my.agent[v2]+(1) -x" = true ∧
      Scene.bare.health oddHost session .single = .ok ⟨.alive 4000, 1⟩ := by
  obtain ⟨session, hmake, -, hruns, hhealth⟩ := recognises_own .claude (some oddCommand) {}
    (some " -x ") "a b" .terminal ⟨"/s"⟩ 0 (by decide +kernel) (by decide +kernel)
    (by decide +kernel) (by decide +kernel)
  have hfile : (make "a b" .claude .terminal oddPlan ⟨"/s"⟩ 0).toOption.map pidFile =
      some "/s/pids/a-b.pid" := by decide +kernel
  have hplan : make "a b" .claude .terminal oddPlan ⟨"/s"⟩ 0 = .ok session := hmake
  rw [hplan] at hfile
  have hword : Text.firstWord oddPlan.command.toList = "/opt/../my.agent[v2]+(1)".toList := by
    decide +kernel
  have hname : Path.fileName? "/opt/../my.agent[v2]+(1)".toList =
      some "my.agent[v2]+(1)".toList := by decide +kernel
  refine ⟨session, hmake, hruns _ ?_, hhealth _ _ _ 4000 (by decide) ?_ ?_⟩
  · refine ⟨"/usr/bin/my.agent[v2]+(1)".toList, " -x".toList, by decide +kernel,
      .inr ⟨"/usr/bin".toList, "my.agent[v2]+(1)".toList, ?_, by decide +kernel⟩, ?_⟩
    · exact (congrArg Path.fileName? hword).trans hname
    · exact (Option.all_eq_true Text.isBlank _).mp (by decide +kernel)
  · have hseen : oddHost.storage.disk.seen (Place.ofPath [] "/s/pids/a-b.pid") =
        some (PidFiles.numberFile 4000) := by decide +kernel
    rw [← Option.some.inj hfile] at hseen
    exact hseen
  · refine .inr ⟨"/opt/../my.agent[v2]+(1) --fast -x", by decide +kernel, .inr ?_⟩
    exact ⟨"/opt/../my.agent[v2]+(1)".toList, " --fast -x".toList, by decide +kernel,
      .inl hword.symm, (Option.all_eq_true Text.isBlank _).mp (by decide +kernel)⟩

end Session

end AgentSupervisor
