import AgentSupervisor.Proofs.PidFiles

/-!
# How a shell announces its number

The first command of a launch plan writes the number of the shell into the PID file of its session.

* `read_announcement`          : the command, as a shell reads it;
* `Child.simple_announcement`  : running it writes the digits and a line feed, in one step;
* `PidFiles.lets_announcement` : the host goes on as it may when a process writes its number.
-/

namespace AgentSupervisor

open PidRead (textOf)

/-! ## Words of digits -/

theorem Text.not_separator {c : Char} (h : Text.isDigit c = true) :
    Fields.isSeparator c = false := by
  have hc : 48 ≤ c.toNat ∧ c.toNat ≤ 57 := by
    simp only [Text.isDigit, Bool.and_eq_true, decide_eq_true_eq] at h
    exact h
  have hne {d : Char} (hd : d.toNat < 48) : (c == d) = false := by
    refine beq_eq_false_iff_ne.mpr fun heq => ?_
    rw [heq] at hc
    omega
  rw [Fields.isSeparator, hne (by decide), hne (by decide), hne (by decide)]
  rfl

/-- A value without blanks is not cut. -/
theorem Fields.foldl_addCut {cs : List Char} (h : ∀ c ∈ cs, isSeparator c = false) (f : Fields)
    (hne : cs ≠ []) :
    cs.foldl addCut f = { f with current := some (cs.reverse ++ f.current.getD []) } := by
  induction cs generalizing f with
  | nil => exact absurd rfl hne
  | cons c cs ih =>
    have hc : f.addCut c = f.add [c] := by
      rw [addCut, h c List.mem_cons_self]
      rfl
    rw [List.foldl_cons, hc]
    by_cases hcs : cs = []
    · subst hcs
      rfl
    · rw [ih (fun d hd => h d (List.mem_cons_of_mem c hd)) _ hcs]
      simp [add]

/-- A text without a backslash has no escapes. -/
theorem Format.unescapeFrom_plain {cs : List Char} (h : '\\' ∉ cs) :
    unescapeFrom none cs = (Utf8.encodeChars cs, false) := by
  induction cs with
  | nil =>
    unfold unescapeFrom
    rfl
  | cons c cs ih =>
    have hc : c ≠ '\\' := fun heq => h (by simp [heq])
    have hcs : '\\' ∉ cs := fun hmem => h (List.mem_cons_of_mem c hmem)
    unfold unescapeFrom
    unfold unescapeFrom.plain
    simp only [if_neg hc, ih hcs, Utf8.encodeChars_cons]

/-- A number on its own is written with a line feed. -/
theorem Program.echo_decimal (p : UInt32) :
    echo true [String.ofList (Text.decimal p.toNat)] = fine (Utf8.encodeChars (textOf p)) := by
  have hdigit := Text.decimal_all_digit p.toNat
  have hslash : '\\' ∉ Text.decimal p.toNat := fun hmem => by
    have := hdigit '\\' hmem
    exact absurd this (by decide)
  have hspaced : spaced [String.ofList (Text.decimal p.toNat)] = Text.decimal p.toNat := by
    simp [spaced]
  have hword : String.ofList (Text.decimal p.toNat) ≠ "-n" := by
    intro heq
    have hmem : '-' ∈ Text.decimal p.toNat := by
      rw [← String.toList_ofList (l := Text.decimal p.toNat), heq]
      decide
    exact absurd (hdigit '-' hmem) (by decide)
  unfold echo
  split
  · rename_i silent words heq
    split at heq
    · rename_i r hr
      exact absurd (List.cons.inj hr).1 hword
    · cases heq
      simp only [if_true, hspaced, Format.unescapeFrom_plain hslash]
      rw [textOf, Utf8.encodeChars_append]
      rfl

/-! ## The command -/

/-- The command by which the shell of a session writes its number. -/
def announcement : Simple where
  words := ["echo".toList.map fun c => .text [c] false, [.variable ['$'] [] false]]
  redirects :=
    [.file 1 false [.text [] true, .variable LaunchPlan.pidFileVariable.toList [] true]]

theorem read_announcement :
    Script.read ("echo $$ > \"$" ++ LaunchPlan.pidFileVariable ++ "\"") =
      .ok (.pipeline [announcement]) := by
  decide +kernel

theorem Child.joined_announcement {c : Child} {path : String}
    (hpath : c.vars.lookup LaunchPlan.pidFileVariable = some path) :
    ShellWord.joined c.value [.text [] true, .variable LaunchPlan.pidFileVariable.toList [] true] =
      path := by
  have hvalue : c.value LaunchPlan.pidFileVariable.toList = path := by
    rw [Child.value, if_neg (by decide), if_neg (by decide), String.ofList_toList, hpath]
    rfl
  simp only [ShellWord.joined, List.flatMap_cons, List.flatMap_nil, List.nil_append,
    List.append_nil, valueOr, hvalue]
  split
  · rename_i hempty
    rw [String.isEmpty_iff.mp hempty]
  · exact String.ofList_toList

theorem Child.fields_announcement (c : Child) :
    announcement.words.flatMap (fun w => w.fields c.value) =
      ["echo", String.ofList (Text.decimal c.pid.toNat)] := by
  have hcut := Fields.foldl_addCut
    (fun d hd => Text.not_separator (Text.decimal_all_digit c.pid.toNat d hd)) {}
    (Text.decimal_ne_nil c.pid.toNat)
  have hname : c.value ['$'] = String.ofList (Text.decimal c.pid.toNat) := by
    rw [Child.value, if_pos rfl]
  have hsome : (String.ofList (Text.decimal c.pid.toNat)).isEmpty = false := by
    rw [Bool.eq_false_iff]
    intro hempty
    have := congrArg String.toList (String.isEmpty_iff.mp hempty)
    rw [String.toList_ofList] at this
    exact Text.decimal_ne_nil c.pid.toNat this
  have hnumber : ShellWord.fields c.value [.variable ['$'] [] false] =
      [String.ofList (Text.decimal c.pid.toNat)] := by
    simp only [ShellWord.fields, List.foldl_cons, List.foldl_nil, Fields.addPiece, valueOr, hname,
      hsome, Bool.false_eq_true, if_false, String.toList_ofList, hcut]
    simp [Fields.finish]
  simp only [announcement, List.flatMap_cons, List.flatMap_nil, hnumber]
  rfl

section

variable {c : Child} {path : String} {disk disk' : Disk}

/-- **A shell that runs the command** writes its number and a line feed, in one step, and goes on
    with the status of success. -/
theorem Child.simple_announcement (now : Nat) (hstreams : c.streams = {})
    (hpath : c.vars.lookup LaunchPlan.pidFileVariable = some path)
    (hdev : c.numberPlace ≠ Program.nullDevice)
    (hw : disk.write c.numberPlace (Utf8.encodeChars (textOf c.pid)) = .ok disk') :
    c.simple now announcement disk = ({ c with status := 0 }, disk') := by
  have hplace : Place.ofPath c.dir path = c.numberPlace := by
    rw [Child.numberPlace, hpath]
    rfl
  obtain ⟨d₁, hempty, hadd⟩ := Disk.append_of_write hw
  have hopen : c.openFiles announcement.redirects c.streams disk =
      .ok ({ c.streams with out := .file c.numberPlace }, d₁) := by
    simp only [announcement, Child.openFiles, Child.joined_announcement hpath, hplace, if_neg hdev]
    rw [hempty]
    rfl
  have hwords : Simple.assignments announcement.words = ([], announcement.words) := rfl
  have hrun (s : Streams) (arg : String) (disk : Disk) :
      c.command now s ["echo", arg] disk = carryOut now s (Program.echo true [arg]) c disk := rfl
  unfold Child.simple
  rw [hopen]
  simp only [hwords, List.isEmpty_nil, Bool.true_or, if_true, Child.assign,
    Child.fields_announcement, hrun, Program.echo_decimal]
  simp only [Program.fine, carryOut, write, hadd, hstreams, Child.display]
  simp [Discipline.shown, Utf8.encode, Utf8.encodeChars]

/-- A host on which a process has run the command is one that may follow. -/
theorem PidFiles.lets_announcement {s : Supervisor} {told : UInt32 → Option Place} {h : Host}
    (now : Nat) (hc : h.child? c.pid = some c) (hlife : c.ended = none)
    (htold : told c.pid = some c.numberPlace) (hstreams : c.streams = {})
    (hpath : c.vars.lookup LaunchPlan.pidFileVariable = some path)
    (hdev : c.numberPlace ≠ Program.nullDevice)
    (hw : h.storage.disk.write c.numberPlace (Utf8.encodeChars (textOf c.pid)) = .ok disk') :
    Relation.ReflTransGen (Lets s told) h
      ((h.withDisk (c.simple now announcement h.storage.disk).2).update c.pid
        fun d => { d with status := 0 }) := by
  rw [Child.simple_announcement now hstreams hpath hdev hw]
  have hwrite : Lets s told h (h.withDisk disk') := .write c.pid c _ disk' hc hlife htold hw
  refine .tail (.single hwrite) (.other _ ?_ fun _ => rfl)
  exact Host.Goes.update _ c.pid (fun _ => rfl) fun _ hn => hn

end

end AgentSupervisor
