import AgentSupervisor.Proofs.Processes
import Mathlib.Data.List.Forall2

/-!
# Processes keep their numbers

Whatever a process does, it keeps its number, and once it has ended it does nothing more.

* `Child.step_pid`   : a step keeps the number;
* `Child.Becomes`    : what time and the supervisor make of a process;
* `Host.pass_keeps`  : while time passes, all processes stay where they are.
-/

namespace AgentSupervisor

namespace Child

variable {c : Child} {disk : Disk} {r : Child × Disk}

/-! ## Commands -/

@[simp] theorem write_pid (sink : Sink) (bs : Bytes) (c : Child) (disk : Disk) :
    (write sink bs c disk).1.pid = c.pid := by
  unfold write
  split
  · rfl
  · rfl
  · split <;> rfl

@[simp] theorem complain_pid (sink : Sink) (what : String) (status : Nat) (c : Child)
    (disk : Disk) : (complain sink what status c disk).1.pid = c.pid :=
  write_pid _ _ _ _

@[simp] theorem assign_pid (as : List (String × ShellWord)) (c : Child) :
    (c.assign as).pid = c.pid := by
  induction as generalizing c with
  | nil => rfl
  | cons a as ih => exact ih _

@[simp] theorem exportAll_pid (as : List String) (c : Child) : (c.exportAll as).pid = c.pid := by
  induction as generalizing c with
  | nil => rfl
  | cons a as ih =>
    unfold exportAll
    split
    · exact ih _
    · exact ih _

@[simp] theorem carryOut_pid (now : Nat) (s : Streams) (e : Effect) (c : Child) (disk : Disk) :
    (carryOut now s e c disk).1.pid = c.pid := by
  cases e with
  | done => simp [carryOut]
  | sleep | copy => rfl

@[simp] theorem script_pid (text : String) (c : Child) (disk : Disk) :
    (script text c disk).1.pid = c.pid := by
  unfold script
  cases Script.read text with
  | ok => rfl
  | error => exact complain_pid _ _ _ _ _

@[simp] theorem shell_pid (s : Streams) (name : String) (args : List String) (c : Child)
    (disk : Disk) : (shell s name args c disk).1.pid = c.pid := by
  unfold shell
  split
  · simp
  · simp
  · simp only
    split <;> simp
  · rfl

@[simp] theorem launch_pid (now : Nat) (s : Streams) (name path : String) (args : List String)
    (c : Child) (disk : Disk) : (launch now s name path args c disk).1.pid = c.pid := by
  unfold launch
  split <;> simp

@[simp] theorem exitBy_pid (s : Streams) (args : List String) (c : Child) (disk : Disk) :
    (exitBy s args c disk).1.pid = c.pid := by
  unfold exitBy
  split
  · rfl
  · split
    · rfl
    · exact complain_pid _ _ _ _ _

@[simp] theorem kill_pid (s : Streams) (args : List String) (c : Child) (disk : Disk) :
    (kill s args c disk).1.pid = c.pid := by
  unfold kill
  split
  · exact complain_pid _ _ _ _ _
  · split
    · simp only
      split
      · rfl
      · exact receive_pid _ _
    · exact complain_pid _ _ _ _ _

@[simp] theorem trap_pid (args : List String) (c : Child) : (trap args c).pid = c.pid := by
  unfold trap
  split
  · rfl
  · simp only
    split
    · rfl
    · split <;> rfl

@[simp] theorem become_pid (now : Nat) (s : Streams) (argv : List String) (c : Child)
    (disk : Disk) : (become now s argv c disk).1.pid = c.pid := by
  unfold become
  split
  · rfl
  · simp only
    split
    · simp
    · simp
    · rw [launch_pid]
      split <;> rfl

@[simp] theorem leaveLoop_pid (onlyRound : Bool) (c : Child) :
    (c.leaveLoop onlyRound).pid = c.pid := by
  unfold leaveLoop
  split <;> rfl

@[simp] theorem readLine_pid (s : Streams) (name : String) (c : Child) :
    (c.readLine s name).pid = c.pid := by
  unfold readLine
  split <;> rfl

theorem builtin_pid {now : Nat} {s : Streams} {name : String} {args : List String}
    (h : builtin now s name args c disk = some r) : r.1.pid = c.pid := by
  unfold builtin at h
  split at h
  all_goals cases h
  all_goals simp

@[simp] theorem inner_pid (now : Nat) (s : Streams) (name : String) (args : List String)
    (c : Child) (disk : Disk) : (inner now s name args c disk).1.pid = c.pid := by
  unfold inner
  split
  · simp
  · simp

@[simp] theorem command_pid (now : Nat) (s : Streams) (argv : List String) (c : Child)
    (disk : Disk) : (command now s argv c disk).1.pid = c.pid := by
  unfold command
  split
  · rfl
  · split
    · rename_i hr
      exact builtin_pid hr
    · split
      · simp
      · simp
      · split
        · simp
        · split
          · simp
          · split <;> simp

@[simp] theorem simple_pid (now : Nat) (k : Simple) (c : Child) (disk : Disk) :
    (simple now k c disk).1.pid = c.pid := by
  unfold simple
  split
  · simp
  · rw [command_pid, assign_pid]
    split <;> rfl

@[simp] theorem stageWith_pid (s : Streams) (argv : List String) (c : Child) (disk : Disk) :
    (stageWith s argv c disk).child.pid = c.pid := by
  unfold stageWith
  split
  · rfl
  · split
    · simp only
      split <;> simp
    · rfl
    · rfl
    · simp

@[simp] theorem stage_pid (k : Simple) (input : Option Bytes) (c : Child) (disk : Disk) :
    (stage k input c disk).child.pid = c.pid := by
  unfold stage
  split
  · simp
  · simp

@[simp] theorem pipeline_pid (now : Nat) (out : Option Bytes) (status time : Nat)
    (ks : List Simple) (c : Child) (disk : Disk) :
    (pipeline now out status time ks c disk).1.pid = c.pid := by
  induction ks generalizing out status time c disk with
  | nil => rfl
  | cons k ks ih =>
    unfold pipeline
    exact (ih _ _ _ _ _).trans (stage_pid _ _ _ _)

/-! ## Steps -/

theorem perform_run_pid {now : Nat} {t : Script} (h : perform now (.run t) c disk = some r) :
    r.1.pid = c.pid := by
  cases t with
  | nothing | seq | both | either | invert | branch | loop | each | nested =>
    cases h
    rfl
  | pipeline ks =>
    match ks with
    | [] | _ :: _ :: _ =>
      cases h
      exact pipeline_pid _ _ _ _ _ _ _
    | [k] =>
      cases h
      exact simple_pid _ _ _ _

theorem perform_pid {now : Nat} {t : Task} (h : perform now t c disk = some r) :
    r.1.pid = c.pid := by
  cases t with
  | run t => exact perform_run_pid h
  | become argv =>
    unfold perform at h
    simp only at h
    split at h
    · cases h
      exact become_pid _ _ _ _ _
    · cases h
  | ifFine | ifNot | choose | decide =>
    cases h
    simp only
    split <;> rfl
  | invert | round | restore | leave =>
    cases h
    rfl
  | each name values body =>
    cases values <;>
    · cases h
      rfl
  | waitUntil time =>
    unfold perform at h
    simp only at h
    split at h
    · cases h
      rfl
    · cases h
  | copy sink =>
    unfold perform at h
    simp only at h
    split at h
    · cases h
    · cases h
      rfl
    · cases h
      exact write_pid _ _ _ _
  | readLine name =>
    unfold perform at h
    simp only at h
    split at h
    · cases h
    · cases h
      rfl
  | conclude sink out status =>
    cases h
    exact write_pid _ _ _ _

theorem conclude_pid (c : Child) (disk : Disk) : (c.conclude disk).1.pid = c.pid := by
  unfold conclude
  split
  · rfl
  · exact script_pid _ _ _

/-- **A step keeps the number** of a process, and a process that has ended makes none. -/
theorem step_pid {now : Nat} (h : step now c disk = some r) :
    r.1.pid = c.pid ∧ c.ended = none := by
  unfold step at h
  split at h
  · cases h
  · rename_i hlife
    have hended : c.ended = none := by
      simp only [Bool.or_eq_true, not_or, Bool.not_eq_true] at hlife
      exact Option.isSome_eq_false_iff.mp hlife.1 |> Option.isNone_iff_eq_none.mp
    refine ⟨?_, hended⟩
    split at h
    · cases h
      exact script_pid _ _ _
    · split at h
      · cases h
        exact conclude_pid c disk
      · have hpid := perform_pid h
        exact hpid

/-! ## What becomes of a process -/

/-- A process is still the one that it was, and if it has ended it has ended in the same way. -/
structure Becomes (c c' : Child) : Prop where
  pid : c'.pid = c.pid
  ended : ∀ code, c.ended = some code → c'.ended = some code

theorem Becomes.refl (c : Child) : Becomes c c := ⟨rfl, fun _ h => h⟩

theorem Becomes.trans {c c' c'' : Child} (h : Becomes c c') (h' : Becomes c' c'') :
    Becomes c c'' :=
  ⟨h'.pid.trans h.pid, fun code hc => h'.ended code (h.ended code hc)⟩

theorem becomes_receive (c : Child) (n : Int32) : Becomes c (c.receive n) := by
  refine ⟨receive_pid c n, fun code h => ?_⟩
  rw [receive, if_pos (by rw [h]; rfl), h]

theorem becomes_press (c : Child) (b : UInt8) : Becomes c (c.press b) := by
  refine ⟨press_pid c b, fun code h => ?_⟩
  rw [press, if_pos (by rw [h]; rfl), h]

theorem becomes_type (c : Child) (bs : Bytes) : Becomes c (c.type bs) := by
  induction bs generalizing c with
  | nil => exact .refl c
  | cons b bs ih => exact (becomes_press c b).trans (ih _)

theorem becomes_settle (now steps : Nat) (c : Child) (disk : Disk) :
    Becomes c (c.settle now steps disk).1 := by
  induction steps generalizing c disk with
  | zero => exact .refl c
  | succ steps ih =>
    unfold settle
    split
    · exact .refl c
    · rename_i c' disk' hr
      obtain ⟨hpid, hlife⟩ := step_pid hr
      have hstep : Becomes c c' := ⟨hpid, fun code h => by rw [hlife] at h; cases h⟩
      exact hstep.trans (ih _ _)

end Child

namespace Host

variable {h h' h'' : Host} {pid q : UInt32}

/-- All processes are still there, one for one, and so are the others. -/
structure Keeps (h h' : Host) : Prop where
  children : List.Forall₂ Child.Becomes h.children h'.children
  others : h'.others.map Other.pid = h.others.map Other.pid

/-- Files have nothing to do with it. -/
theorem keeps_storage (h : Host) (storage : Storage) : h.Keeps { h with storage } :=
  ⟨List.forall₂_same.mpr fun c _ => .refl c, rfl⟩

theorem Keeps.refl (h : Host) : h.Keeps h := keeps_storage h h.storage

theorem forall₂_becomes_trans {as bs cs : List Child} (h1 : List.Forall₂ Child.Becomes as bs)
    (h2 : List.Forall₂ Child.Becomes bs cs) : List.Forall₂ Child.Becomes as cs := by
  induction h1 generalizing cs with
  | nil => exact h2
  | cons hb _ ih =>
    cases h2 with
    | cons hb' h2 => exact .cons (hb.trans hb') (ih h2)

theorem Keeps.trans (h1 : h.Keeps h') (h2 : h'.Keeps h'') : h.Keeps h'' :=
  ⟨forall₂_becomes_trans h1.children h2.children, h2.others.trans h1.others⟩

/-- What happens to each process by itself. -/
theorem keeps_map (h : Host) {f : Child → Child} (hf : ∀ c ∈ h.children, Child.Becomes c (f c)) :
    h.Keeps { h with children := h.children.map f } :=
  ⟨(List.forall₂_map_right_iff.mpr (List.forall₂_same.mpr hf)), rfl⟩

theorem keeps_update (h : Host) (pid : UInt32) {f : Child → Child}
    (hf : ∀ c, Child.Becomes c (f c)) : h.Keeps (h.update pid f) := by
  refine keeps_map h fun c _ => ?_
  split
  · exact hf c
  · exact .refl c

theorem keeps_signal (h : Host) (pid : UInt32) (n : Int32) : h.Keeps (h.signal pid n) :=
  keeps_update h pid fun c => c.becomes_receive n

theorem keeps_type (h : Host) (pid : UInt32) (keys : Bytes) : h.Keeps (h.type pid keys) :=
  keeps_update h pid fun c => c.becomes_type keys

/-- Whoever a signal goes to keeps its number. -/
theorem keeps_tell (h : Host) (pid : UInt32) (n : Int32) : h.Keeps (h.tell pid n) := by
  refine ⟨List.forall₂_same.mpr fun c _ => .refl c, ?_⟩
  unfold tell
  rw [List.map_map]
  refine List.map_congr_left fun o _ => ?_
  rw [Function.comp_apply]
  split <;> rfl

theorem keeps_send {n : Int32} (hs : h.send pid n = .ok h') : h.Keeps h' := by
  obtain ⟨-, rfl⟩ | ⟨-, -, rfl⟩ := send_ok hs
  · exact keeps_signal h pid n
  · exact keeps_tell h pid n

theorem settleAll_becomes (now : Nat) (cs : List Child) (disk : Disk) :
    List.Forall₂ Child.Becomes cs (settleAll now cs disk).1 := by
  induction cs generalizing disk with
  | nil => exact .nil
  | cons c cs ih => exact .cons (c.becomes_settle now patience disk) (ih _)

theorem settle_keeps (h : Host) : h.Keeps h.settle := ⟨settleAll_becomes _ _ _, rfl⟩

theorem passTo_keeps (h : Host) (time : Nat) : h.Keeps (h.passTo time) :=
  ⟨settleAll_becomes _ _ _, rfl⟩

theorem passIn_keeps (stop turns : Nat) (h : Host) : h.Keeps (passIn stop turns h) := by
  induction turns generalizing h with
  | zero => exact passTo_keeps h stop
  | succ turns ih =>
    unfold passIn
    split
    · exact passTo_keeps h stop
    · split
      · exact passTo_keeps h stop
      · exact (passTo_keeps h _).trans (ih _)

/-- **While time passes**, all processes stay where they are. -/
theorem pass_keeps (h : Host) (milliseconds : Nat) : h.Keeps (h.pass milliseconds) :=
  passIn_keeps _ _ h

theorem Keeps.pids (hk : h.Keeps h') :
    h'.children.map Child.pid = h.children.map Child.pid := by
  have hchildren := hk.children
  generalize h.children = cs at hchildren
  generalize h'.children = cs' at hchildren
  induction hchildren with
  | nil => rfl
  | cons hb _ ih => rw [List.map_cons, List.map_cons, ih, hb.pid]

/-- What is found under a number is still the same process. -/
theorem Keeps.child? (hk : h.Keeps h') (pid : UInt32) :
    Option.Rel Child.Becomes (h.child? pid) (h'.child? pid) := by
  have hchildren := hk.children
  unfold Host.child?
  generalize h.children = cs at hchildren
  generalize h'.children = cs' at hchildren
  induction hchildren with
  | nil => exact .none
  | @cons c c' cs cs' hb _ ih =>
    rw [List.find?_cons, List.find?_cons, hb.pid]
    split
    · exact .some hb
    · exact ih

/-- Is there another process of a number? -/
theorem other?_isSome (h : Host) (pid : UInt32) :
    (h.other? pid).isSome = true ↔ pid ∈ h.others.map Other.pid := by
  simp [other?]

theorem Keeps.other? (hk : h.Keeps h') (pid : UInt32) :
    (h'.other? pid).isSome = (h.other? pid).isSome := by
  rw [Bool.eq_iff_iff, other?_isSome, other?_isSome, hk.others]

end Host

end AgentSupervisor
