import AgentSupervisor.Proofs.Recognition

/-!
# The pattern for the program of a command

A command that someone chose has a pattern of its own: the last name of its first word, taken
literally and as a whole word.

* `Text.firstWord_trimChars`     : blanks around a command do not change its first word;
* `LaunchPlan.extraPatterns_eq`  : the pattern is what a plan adds to those of the agent;
* `LaunchPlan.accepts_program`   : which command lines it accepts.
-/

namespace AgentSupervisor

/-! ## First words -/

namespace Text

variable {cs : List Char}

/-- Only blanks are dropped at the end. -/
theorem exists_trimBack (cs : List Char) :
    ∃ blanks, cs = trimBack cs ++ blanks ∧ ∀ c ∈ blanks, isBlank c = true := by
  refine ⟨(cs.reverse.takeWhile isBlank).reverse, ?_, fun c hc => ?_⟩
  · rw [trimBack, ← List.reverse_append, List.takeWhile_append_dropWhile, List.reverse_reverse]
  · exact List.all_eq_true.mp List.all_takeWhile c (List.mem_reverse.mp hc)

theorem takeWhile_append_blanks {blanks : List Char} (h : ∀ c ∈ blanks, isBlank c = true) :
    (cs ++ blanks).takeWhile (fun c => !isBlank c) = cs.takeWhile fun c => !isBlank c := by
  have hnone : blanks.takeWhile (fun c => !isBlank c) = [] := by
    cases blanks with
    | nil => rfl
    | cons c blanks => simp [h c List.mem_cons_self]
  rw [List.takeWhile_append]
  split
  · rename_i hall
    rw [hnone, List.append_nil]
    exact ((List.takeWhile_prefix _).eq_of_length hall).symm
  · rfl

/-- **Blanks around a text do not change its first word.** -/
theorem firstWord_trimChars (cs : List Char) : firstWord (trimChars cs) = firstWord cs := by
  have hfront : firstWord cs = (trimFront cs).takeWhile fun c => !isBlank c := rfl
  rw [trimChars, hfront]
  cases hcs : trimFront cs with
  | nil => rfl
  | cons c r =>
    obtain ⟨blanks, hr, hblanks⟩ := exists_trimBack r
    have hc := trimFront_head hcs
    rw [trimBack_cons hc, firstWord_cons hc]
    conv_rhs => rw [hr, ← List.cons_append, takeWhile_append_blanks hblanks]

end Text

/-! ## The pattern -/

namespace LaunchPlan

variable {command : String} {name : List Char}

/-- The pattern for a command is that of the command without the blanks around it. -/
theorem programPattern?_trim (command : String) :
    programPattern? (Text.trim command) = programPattern? command := by
  rw [programPattern?, programPattern?, Text.trim, String.toList_ofList, Text.firstWord_trimChars]

/-- A plan has the pattern for the command that was chosen, and no other besides the agent's. -/
theorem extraPatterns_eq (h : Path.fileName? (Text.firstWord command.toList) = some name)
    (agent : Agent) (config : AgentConfig) (arguments : Option String) :
    (make agent (some command) config arguments).extraPatterns =
      (programPattern? command).toList := by
  have hne : (Text.trim command).isEmpty = false := by
    -- an empty text has no first word, and so no last name
    rw [Bool.eq_false_iff]
    intro hempty
    have hnil : Text.trimChars command.toList = [] := by
      rw [← String.toList_ofList (l := Text.trimChars command.toList)]
      exact String.toList_eq_nil_iff.mpr (String.isEmpty_iff.mp hempty)
    rw [← Text.firstWord_trimChars, hnil] at h
    cases h
  have hcustom : custom? agent (some command) config = some (Text.trim command) := by
    have hover : (some command <|> config.command? agent.name) = some command := rfl
    rw [custom?, hover, Option.bind_some]
    simp only [nonblank?, hne, Bool.false_eq_true, if_false]
  rw [make]
  simp only [hcustom, Option.bind_some, programPattern?_trim]

/-- **The pattern for a command accepts its program as a whole word**, and nothing else. It can be
    read, whatever characters the name has, and it is the one that a plan adds for the command. A
    matcher with this pattern alone accepts the lines in which the name stands at the beginning or
    behind a slash or a blank, and at the end or in front of a blank. -/
theorem accepts_program (command : String) (name : List Char)
    (h : Path.fileName? (Text.firstWord command.toList) = some name) :
    ∃ text pattern, programPattern? command = some text ∧
      Pattern.ofString? text = some pattern ∧
      (∀ agent config arguments,
        (make agent (some command) config arguments).extraPatterns = [text]) ∧
      ∀ line : String, Pattern.acceptsAny [pattern] line = true ↔
        ∃ x y, line.toList = x ++ name ++ y ∧
          (∀ c ∈ x.getLast?, c = '/' ∨ Text.isBlank c = true) ∧
          ∀ c ∈ y.head?, Text.isBlank c = true := by
  have htext := programPattern?_eq h
  refine ⟨_, _, htext, Pattern.ofString?_wordPattern name, fun agent config arguments => ?_,
    fun line => ?_⟩
  · rw [extraPatterns_eq h, htext, Option.toList_some]
  · rw [Pattern.acceptsAny, List.any_cons, List.any_nil, Bool.or_false]
    exact Pattern.accepts_wholeWord name line

/-- A program whose name has characters with a meaning, behind wide blanks. -/
theorem accepts_program_odd :
    Path.fileName? (Text.firstWord "\u3000/opt/a.b*/(x)|$\u00a0--fast".toList) =
        some "(x)|$".toList ∧
      ∃ text pattern, programPattern? "\u3000/opt/a.b*/(x)|$\u00a0--fast" = some text ∧
        Pattern.ofString? text = some pattern ∧
        Pattern.acceptsAny [pattern] "/usr/bin/(x)|$\u0085-v" = true ∧
        Pattern.acceptsAny [pattern] "(x)|$y /(x)|$" = true ∧
        Pattern.acceptsAny [pattern] "a(x)|$ x" = false := by
  have hname : Path.fileName? (Text.firstWord "\u3000/opt/a.b*/(x)|$\u00a0--fast".toList) =
      some "(x)|$".toList := by decide +kernel
  obtain ⟨text, pattern, htext, hread, -, haccepts⟩ :=
    accepts_program "\u3000/opt/a.b*/(x)|$\u00a0--fast" "(x)|$".toList hname
  refine ⟨hname, text, pattern, htext, hread, ?_, ?_, ?_⟩
  · exact (haccepts _).mpr ⟨"/usr/bin/".toList, "\u0085-v".toList, by decide +kernel,
      by simp, by simp; decide⟩
  · exact (haccepts _).mpr ⟨"(x)|$y /".toList, [], by decide +kernel, by simp, by simp⟩
  · rw [Bool.eq_false_iff]
    intro htrue
    obtain ⟨x, y, hline, hx, -⟩ := (haccepts _).mp htrue
    -- the name can only begin behind the first letter
    have hlen := congrArg List.length hline
    rcases x with _ | ⟨a, _ | ⟨b, _ | ⟨c, _ | ⟨d, x⟩⟩⟩⟩
    all_goals simp at hline hlen
    · obtain ⟨rfl, -⟩ := hline
      exact absurd (hx 'a' rfl) (by decide)
    · omega

end LaunchPlan

end AgentSupervisor
