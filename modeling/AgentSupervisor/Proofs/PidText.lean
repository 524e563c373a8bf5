import AgentSupervisor.Agent
import AgentSupervisor.Pattern.Reader
import AgentSupervisor.Proofs.Elsewhere
import AgentSupervisor.Proofs.HealthLooks
import AgentSupervisor.Proofs.Utf8
import Mathlib.Algebra.Order.Ring.Nat
import Mathlib.Tactic.Ring

/-!
# Reading a PID file while it is written

A shell writes the decimal digits of its number and a line feed. A look may come in the middle
of that and find the first characters only.

* `Text.take_decimal`      : the first digits of a number are the digits of a smaller one;
* `PidRead.ofText_written` : so a look that finds some of the digits finds that smaller number;
* `Health.check_written`   : what a check makes of it.
-/

namespace AgentSupervisor

/-! ## Decimal digits -/

namespace Text

theorem decimal_of_lt {n : Nat} (h : n < 10) : decimal n = [digitChar n] := by
  rw [decimal, if_pos h]

theorem decimal_of_ge {n : Nat} (h : 10 ≤ n) :
    decimal n = decimal (n / 10) ++ [digitChar (n % 10)] := by
  rw [decimal, if_neg (by omega)]

theorem length_decimal_pos (n : Nat) : 0 < (decimal n).length :=
  List.length_pos_iff.mpr (decimal_ne_nil n)

/-- The first digits of a number are the digits of the number without its last ones. -/
theorem take_decimal {n m : Nat} (h1 : 1 ≤ m) (hm : m ≤ (decimal n).length) :
    (decimal n).take m = decimal (n / 10 ^ ((decimal n).length - m)) := by
  induction n using Nat.strong_induction_on with
  | _ n ih =>
    rcases Nat.eq_or_lt_of_le hm with heq | hlt
    · rw [heq, List.take_length, Nat.sub_self, Nat.pow_zero, Nat.div_one]
    · by_cases h10 : n < 10
      · rw [decimal_of_lt h10, List.length_singleton] at hlt
        omega
      · have hdec := decimal_of_ge (n := n) (by omega)
        have hlen : (decimal n).length = (decimal (n / 10)).length + 1 := by
          rw [hdec, List.length_append, List.length_singleton]
        have hle : m ≤ (decimal (n / 10)).length := by omega
        have hsub : (decimal n).length - m = (decimal (n / 10)).length - m + 1 := by omega
        rw [hsub, Nat.pow_succ', ← Nat.div_div_eq_div_mul, ← ih (n / 10) (by omega) hle, hdec,
          List.take_append_of_le_length hle]

/-- The first digit of a positive number is not zero. -/
theorem pow_length_decimal {n : Nat} (h : 0 < n) : 10 ^ ((decimal n).length - 1) ≤ n := by
  induction n using Nat.strong_induction_on with
  | _ n ih =>
    by_cases h10 : n < 10
    · rw [decimal_of_lt h10, List.length_singleton, Nat.sub_self, Nat.pow_zero]
      exact h
    · have hdec := decimal_of_ge (n := n) (by omega)
      have hpos := length_decimal_pos (n / 10)
      have hlen : (decimal n).length - 1 = (decimal (n / 10)).length - 1 + 1 := by
        rw [hdec, List.length_append, List.length_singleton]
        omega
      have hhead := ih (n / 10) (by omega) (by omega)
      rw [hlen, Nat.pow_succ]
      omega

theorem isBlank_of_isDigit {c : Char} (h : isDigit c = true) : isBlank c = false := by
  have hc : 48 ≤ c.toNat ∧ c.toNat ≤ 57 := by
    simp only [isDigit, Bool.and_eq_true, decide_eq_true_eq] at h
    exact h
  simp only [isBlank, Bool.or_eq_false_iff, Bool.and_eq_false_iff, decide_eq_false_iff_not,
    beq_eq_false_iff_ne]
  omega

theorem trimFront_decimal (n : Nat) (r : List Char) :
    trimFront (decimal n ++ r) = decimal n ++ r := by
  refine trimFront_eq_self fun c t h => ?_
  obtain ⟨d, ds, hd⟩ := List.exists_cons_of_ne_nil (decimal_ne_nil n)
  have hmem : isDigit d = true := decimal_all_digit n d (by rw [hd]; simp)
  rw [hd, List.cons_append] at h
  rw [← (List.cons.inj h).1]
  exact isBlank_of_isDigit hmem

theorem trimBack_decimal (n : Nat) : trimBack (decimal n) = decimal n := by
  rcases List.eq_nil_or_concat (decimal n) with h | ⟨ds, d, h⟩
  · exact absurd h (decimal_ne_nil n)
  · have hmem : isDigit d = true := decimal_all_digit n d (by rw [h]; simp)
    rw [h, List.concat_eq_append]
    exact trimBack_append_getLast (isBlank_of_isDigit hmem)

theorem trimChars_decimal (n : Nat) : trimChars (decimal n) = decimal n := by
  have hfront := trimFront_decimal n []
  rw [List.append_nil] at hfront
  rw [trimChars, hfront, trimBack_decimal]

theorem trimChars_decimal_line (n : Nat) : trimChars (decimal n ++ ['\n']) = decimal n := by
  have hback : trimBack (decimal n ++ ['\n']) = trimBack (decimal n) := by
    have hblank : isBlank '\n' = true := by decide
    simp only [trimBack, List.reverse_append, List.reverse_singleton, List.singleton_append,
      List.dropWhile_cons, hblank, if_true]
  rw [trimChars, trimFront_decimal, hback, trimBack_decimal]

theorem unsigned?_decimal {n bound : Nat} (h : n < bound) :
    unsigned? bound (decimal n) = some n := by
  obtain ⟨d, ds, hd⟩ := List.exists_cons_of_ne_nil (decimal_ne_nil n)
  have hdigit : isDigit d = true := decimal_all_digit n d (by rw [hd]; simp)
  have hplus : d ≠ '+' := by
    rintro rfl
    exact absurd hdigit (by decide)
  have hdigits : digits? (d :: ds) = some n := by rw [← hd, digits?_decimal]
  rw [hd, unsigned?, hdigits, Option.bind_eq_bind, Option.bind_some, if_pos h]
  exact fun r heq => hplus (List.cons.inj heq).1

end Text

/-! ## What a look finds -/

namespace PidRead

/-- What a shell writes into its PID file: its number and a line feed. -/
def textOf (p : UInt32) : List Char := Text.decimal p.toNat ++ ['\n']

/-- How many digits the number of a process has. -/
def digits (p : UInt32) : Nat := (Text.decimal p.toNat).length

/-- The number that the first `m` digits of a number make. -/
def cut (p : UInt32) (m : Nat) : UInt32 := UInt32.ofNat (p.toNat / 10 ^ (digits p - m))

theorem ofText_of_trim {cs : List Char} {n : Nat} (htrim : Text.trimChars cs = Text.decimal n)
    (hpos : 0 < n) (hn : n < Text.bound32) : ofText cs = .found (UInt32.ofNat n) := by
  have hne : n ≠ 0 := by omega
  simp only [ofText, htrim, Text.unsigned?_decimal hn, if_neg hne]

theorem toNat_cut (p : UInt32) (m : Nat) :
    (cut p m).toNat = p.toNat / 10 ^ (digits p - m) := by
  have hle : p.toNat / 10 ^ (digits p - m) ≤ p.toNat := Nat.div_le_self _ _
  exact UInt32.toNat_ofNat_of_lt' (Nat.lt_of_le_of_lt hle p.toNat_lt)

theorem cut_all {p : UInt32} {m : Nat} (h : digits p ≤ m) : cut p m = p := by
  rw [cut, Nat.sub_eq_zero_of_le h, Nat.pow_zero, Nat.div_one, UInt32.ofNat_toNat]

theorem cut_pos {p : UInt32} {m : Nat} (hp : 0 < p.toNat) (hm : 1 ≤ m) :
    0 < (cut p m).toNat := by
  have hsize : 10 ^ (digits p - 1) ≤ p.toNat := Text.pow_length_decimal hp
  have hpow : 10 ^ (digits p - m) ≤ 10 ^ (digits p - 1) :=
    Nat.pow_le_pow_right (by decide) (by omega)
  rw [toNat_cut]
  exact Nat.div_pos (Nat.le_trans hpow hsize) (Nat.pow_pos (by decide))

theorem cut_lt {p : UInt32} {m : Nat} (hp : 0 < p.toNat) (hm : m < digits p) :
    (cut p m).toNat < p.toNat := by
  have hpow : 10 ^ 1 ≤ 10 ^ (digits p - m) := Nat.pow_le_pow_right (by decide) (by omega)
  rw [toNat_cut]
  exact Nat.div_lt_self hp (by omega)

theorem take_textOf {p : UInt32} {m : Nat} (hm : 1 ≤ m) :
    Text.trimChars ((textOf p).take m) = Text.decimal (p.toNat / 10 ^ (digits p - m)) := by
  rcases Nat.lt_or_ge (digits p) m with hlt | hle
  · have hall : (textOf p).take m = textOf p := by
      refine List.take_of_length_le ?_
      rw [textOf, List.length_append, List.length_singleton]
      exact hlt
    rw [hall, textOf, Text.trimChars_decimal_line, Nat.sub_eq_zero_of_le (Nat.le_of_lt hlt),
      Nat.pow_zero, Nat.div_one]
  · rw [textOf, List.take_append_of_le_length hle, Text.take_decimal hm hle,
      Text.trimChars_decimal]
    rfl

/-- **A look that finds some of the text finds the number that its digits make.** -/
theorem ofText_written {p : UInt32} (hp : 0 < p.toNat) (m : Nat) :
    ofText ((textOf p).take m) = if m = 0 then .incomplete else .found (cut p m) := by
  by_cases hm : m = 0
  · rw [if_pos hm, hm, List.take_zero]
    decide
  · rw [if_neg hm]
    have hpos := cut_pos hp (m := m) (by omega)
    have hlt := (cut p m).toNat_lt
    rw [toNat_cut] at hpos hlt
    exact ofText_of_trim (take_textOf (by omega)) hpos hlt

theorem ofText_textOf {p : UInt32} (hp : 0 < p.toNat) : ofText (textOf p) = .found p := by
  have hlen : digits p ≤ (textOf p).length := by
    rw [textOf, List.length_append]
    exact Nat.le_add_right _ _
  have hpos := Text.length_decimal_pos p.toNat
  have h := ofText_written hp (textOf p).length
  rwa [List.take_length, cut_all hlen, if_neg (by rw [digits] at hlen; omega)] at h

variable {disk : Disk} {dir : Place} {name : String}

theorem ofFile_none (hd : disk.IsDir dir) (hs : name.utf8ByteSize ≤ Disk.maxName)
    (hat : disk.at? (dir ++ [name]) = none) : ofFile disk (dir ++ [name]) = .ok .missing := by
  have hread := Disk.read_child hd hs (.inl hat)
  rw [hat] at hread
  rw [ofFile, Disk.readText, hread]
  rfl

theorem ofFile_of_none {d : Disk} {p : Place} (hseen : d.seen p = none) (q : UInt32) :
    ofFile d p ≠ .ok (.found q) := by
  have hread : ∃ e, d.readText p = .error e := by
    unfold Disk.seen at hseen
    cases hf : d.find p with
    | error e => exact ⟨e, by rw [Disk.readText, Disk.read, hf]; rfl⟩
    | ok e =>
      rw [hf] at hseen
      cases hseen
      exact ⟨.notFound, by rw [Disk.readText, Disk.read, hf]; rfl⟩
  obtain ⟨e, he⟩ := hread
  intro hq
  rw [ofFile, he] at hq
  cases e <;> cases hq

theorem ofFile_of_seen {d : Disk} {p : Place} {cs : List Char}
    (hseen : d.seen p = some (.file (Utf8.encodeChars cs))) :
    ofFile d p = .ok (ofText cs) := by
  have hread : d.read p = .ok (Utf8.encodeChars cs) := by
    unfold Disk.seen at hseen
    cases hf : d.find p with
    | error e =>
      rw [hf] at hseen
      cases hseen
    | ok e =>
      rw [hf] at hseen
      cases hseen
      rw [Disk.read, hf]
      rfl
  have htext : d.readText p = .ok cs := by
    unfold Disk.readText
    simp only [hread, bind, Except.bind, Utf8.decode?_encodeChars]
  rw [ofFile, htext]

/-- A number that is found in the text of a process is its own. -/
theorem eq_of_ofText_textOf {p q : UInt32} (h : ofText (textOf p) = .found q) :
    q = p := by
  by_cases hp : p = 0
  · rw [hp] at h
    have hzero : ofText (textOf 0) = .incomplete := by decide +kernel
    rw [hzero] at h
    cases h
  · have hpos : 0 < p.toNat := Nat.pos_of_ne_zero fun h0 => hp (UInt32.toNat_inj.mp h0)
    rw [ofText_textOf hpos] at h
    exact (PidRead.found.inj h).symm

theorem ofFile_text {cs : List Char} (hd : disk.IsDir dir) (hs : name.utf8ByteSize ≤ Disk.maxName)
    (hat : disk.at? (dir ++ [name]) = some (.file (Utf8.encodeChars cs))) :
    ofFile disk (dir ++ [name]) = .ok (ofText cs) := by
  refine ofFile_of_seen ?_
  rw [Disk.seen, Disk.find_child hd, if_neg (by omega), hat]

end PidRead

/-! ## What a check makes of it -/

namespace Health

open PidRead (textOf digits cut)

/-- What the looks at a PID file come upon while process `p` writes it: no file for the first
    `absent` looks, and afterwards the first characters of its text, `length k` of them at
    look `k`. -/
structure Written (disks : Nat → Disk) (dir : Place) (name : String) (p : UInt32) (absent : Nat)
    (length : Nat → Nat) : Prop where
  isDir : ∀ k, (disks k).IsDir dir
  short : name.utf8ByteSize ≤ Disk.maxName
  missing : ∀ k, k ≤ absent → (disks k).at? (dir ++ [name]) = none
  begun : ∀ k, absent < k →
    (disks k).at? (dir ++ [name]) = some (.file (Utf8.encodeChars ((textOf p).take (length k))))

variable {disks : Nat → Disk} {dir : Place} {name : String} {p : UInt32} {absent i n : Nat}
  {length : Nat → Nat} {table : ProcessTable} {patterns : List Pattern} {policy : RetryPolicy}

/-- Look `k` at the PID file. -/
def lookAt (disks : Nat → Disk) (dir : Place) (name : String) (k : Nat) :
    Except IoError PidRead :=
  PidRead.ofFile (disks k) (dir ++ [name])

theorem Written.lookAt_none (h : Written disks dir name p absent length) (hk : i ≤ absent) :
    lookAt disks dir name i = .ok .missing :=
  PidRead.ofFile_none (h.isDir i) h.short (h.missing i hk)

theorem Written.lookAt_text (h : Written disks dir name p absent length) (hp : 0 < p.toNat)
    (hk : absent < i) : lookAt disks dir name i =
      .ok (if length i = 0 then .incomplete else .found (cut p (length i))) := by
  rw [lookAt, PidRead.ofFile_text (h.isDir i) h.short (h.begun i hk), PidRead.ofText_written hp]

/-- Looks that find no digit settle nothing: a file that is not there has not been there before,
    and an empty one is unfinished. -/
theorem Written.open_of_empty (h : Written disks dir name p absent length) (hp : 0 < p.toNat)
    (hempty : ∀ j, absent < j → j ≤ n → length j = 0) : Open (lookAt disks dir name) n := by
  intro j _ hj hs
  rcases Nat.lt_or_ge absent j with hlt | hle
  · have hlook := h.lookAt_text hp hlt
    rw [if_pos (hempty j hlt hj)] at hlook
    rcases hs with ⟨e, he⟩ | ⟨q, hq⟩ | ⟨hm, -⟩
    · rw [he] at hlook; cases hlook
    · rw [hq] at hlook; cases hlook
    · rw [hm] at hlook; cases hlook
  · have hlook := h.lookAt_none hle
    rcases hs with ⟨e, he⟩ | ⟨q, hq⟩ | ⟨-, m, -, hm, hread⟩
    · rw [he] at hlook; cases hlook
    · rw [hq] at hlook; cases hlook
    · rw [h.lookAt_none (Nat.le_trans (Nat.le_of_lt hm) hle)] at hread
      cases hread

/-- The first look that finds a digit. -/
structure FirstText (absent : Nat) (length : Nat → Nat) (i : Nat) : Prop where
  there : absent < i
  text : 0 < length i
  earlier : ∀ j, absent < j → j < i → length j = 0

theorem Written.first (h : Written disks dir name p absent length) (hp : 0 < p.toNat)
    (hi : FirstText absent length i) : First (lookAt disks dir name) i := by
  have hthere := hi.there
  have hlook := h.lookAt_text hp hthere
  rw [if_neg (Nat.ne_of_gt hi.text)] at hlook
  refine ⟨by omega, .inr (.inl ⟨_, hlook⟩), fun j h1 hj => ?_⟩
  exact h.open_of_empty hp (n := j) (fun m hm hmj => hi.earlier m hm (by omega)) j h1
    (Nat.le_refl j)

theorem Written.check_text (h : Written disks dir name p absent length) (hp : 0 < p.toNat)
    (hi : FirstText absent length i) (hn : i ≤ policy.attempts) :
    check (lookAt disks dir name) table patterns policy =
      .ok ⟨judge table patterns (cut p (length i)), UInt32.ofNat i⟩ := by
  have hlook := h.lookAt_text hp hi.there
  rw [if_neg (Nat.ne_of_gt hi.text)] at hlook
  rw [check_first hn (h.first hp hi), hlook, settledBy]

/-- **A check while the PID file is written.** The first look that finds a digit decides. When it
    finds all digits the process is alive; when digits are missing, another and smaller number is
    judged. The process itself exists and is recognised throughout. -/
theorem check_half_written {line : String} (h : Written disks dir name p absent length)
    (hp : 1 ≤ p) (hlive : table p = some (some line))
    (hmatch : Pattern.acceptsAny patterns line = true) :
    let n := max 1 policy.maxAttempts.toNat
    let answer := check (lookAt disks dir name) table patterns policy
    (∀ i, i ≤ n → FirstText absent length i → ∃ a : UInt32, a.toNat = i ∧
      (digits p ≤ length i → answer = .ok ⟨.alive p, a⟩) ∧
      (length i < digits p → ∃ q : UInt32, q.toNat = p.toNat / 10 ^ (digits p - length i) ∧
        0 < q.toNat ∧ q.toNat < p.toNat ∧
        (Foreign table patterns q → answer = .ok ⟨.crashed, a⟩) ∧
        (¬ Foreign table patterns q → answer = .ok ⟨.alive q, a⟩))) ∧
    ((∀ j, absent < j → j ≤ n → length j = 0) →
      ∃ a : UInt32, a.toNat = n ∧ answer = .ok ⟨.unknown, a⟩) := by
  intro n answer
  have hpos : 0 < p.toNat := hp
  refine ⟨fun i hi hfirst => ⟨_, toNat_count hi, fun hall => ?_, fun hpart => ?_⟩,
    fun hempty => ⟨_, toNat_count (Nat.le_refl n), check_open (h.open_of_empty hpos hempty)⟩⟩
  · have hanswer : answer = _ := h.check_text hpos hfirst hi
    have hjudge : judge table patterns p = .alive p := by simp only [judge, hlive, hmatch, if_true]
    rw [hanswer, PidRead.cut_all hall, hjudge]
  · have hanswer : answer = _ := h.check_text hpos hfirst hi
    refine ⟨cut p (length i), PidRead.toNat_cut p _, PidRead.cut_pos hpos hfirst.text,
      PidRead.cut_lt hpos hpart, ?_⟩
    rw [hanswer]
    rcases judge_cases table patterns (cut p (length i)) with ⟨hf, hjudge⟩ | ⟨hf, hjudge⟩
    · exact ⟨fun _ => by rw [hjudge], fun hn => absurd hf hn⟩
    · exact ⟨fun hn => absurd hn hf, fun _ => by rw [hjudge]⟩

/-- Process 12 writes its PID file: nothing is there at the first look, nothing is in it at the
    second, and then one more character at every look. -/
def slowDisk (k : Nat) : Disk :=
  ⟨(["p"], .directory) ::
    if k ≤ 1 then [] else [(["p", "a.pid"], .file (Utf8.encodeChars ((textOf 12).take (k - 2))))]⟩

/-- Process 12 runs an agent, and process 1 something else. -/
def slowTable (first : String) (p : UInt32) : Option (Option String) :=
  if p = 12 then some (some "claude") else if p = 1 then some (some first) else none

/-- The patterns of the agent. -/
def slowPatterns : List Pattern := (Agent.claude.patterns.mapM Pattern.ofString?).getD []

theorem slowDisk_written : Written slowDisk ["p"] "a.pid" 12 1 (· - 2) := by
  refine ⟨fun k => ?_, by decide, fun k hk => ?_, fun k hk => ?_⟩
  · rfl
  · rw [slowDisk, if_pos hk]
    rfl
  · rw [slowDisk, if_neg (by omega)]
    rfl

/-- A live agent is reported as crashed while its PID file is written, and as another process
    when that one runs an agent too. -/
theorem half_written_crashed :
    Written slowDisk ["p"] "a.pid" 12 1 (· - 2) ∧
      slowTable "/sbin/init" 12 = some (some "claude") ∧
      Pattern.acceptsAny slowPatterns "claude" = true ∧
      check (lookAt slowDisk ["p"] "a.pid") (slowTable "/sbin/init") slowPatterns ⟨5, 100⟩ =
        .ok ⟨.crashed, 3⟩ ∧
      check (lookAt slowDisk ["p"] "a.pid") (slowTable "claude") slowPatterns ⟨5, 100⟩ =
        .ok ⟨.alive 1, 3⟩ :=
  ⟨slowDisk_written, by decide +kernel⟩

/-- With the first digit of 12 the check finds process 1. -/
theorem check_half_written_slow :
    ∃ a q : UInt32, a.toNat = 3 ∧ q.toNat = 1 ∧
      check (lookAt slowDisk ["p"] "a.pid") (slowTable "claude") slowPatterns ⟨5, 100⟩ =
        .ok ⟨.alive q, a⟩ := by
  have hmatch : Pattern.acceptsAny slowPatterns "claude" = true := by decide +kernel
  have hfirst : FirstText 1 (· - 2) 3 := ⟨by decide, by decide, fun j _ hj => by omega⟩
  have hlooks : 3 ≤ max 1 (⟨5, 100⟩ : RetryPolicy).maxAttempts.toNat := by decide
  have hline : slowTable "claude" 12 = some (some "claude") := rfl
  obtain ⟨a, ha, -, hpart⟩ :=
    (check_half_written slowDisk_written (by decide) hline hmatch).1 3 hlooks hfirst
  obtain ⟨q, hq, -, -, -, halive⟩ := hpart (by decide +kernel)
  have hq1 : q = 1 := UInt32.toNat_inj.mp (hq.trans (by decide +kernel))
  refine ⟨a, q, ha, by rw [hq1]; rfl, halive ?_⟩
  rw [hq1]
  rintro (h | ⟨line, h, hno⟩)
  · cases h
  · cases h
    rw [hmatch] at hno
    cases hno

end Health

end AgentSupervisor
