import AgentSupervisor.Proofs.Typing
import Mathlib.Data.List.DropRight
import Mathlib.Data.Nat.Find

/-!
# The loop that writes to a terminal

A terminal may go on answering without an end. The loop that writes to it comes to an end all the
same, unless there is nothing but interruptions from some write on, and what it then returns can be
told from the answers.

* `Terminal.Writing`           : how far the loop has come with the bytes of one write;
* `Terminal.Writing.typeAll_eq` : what is typed from there on;
* `Terminal.Ends`              : how the loop ends, and `Terminal.exists_ends` that it does;
* `Terminal.inject_ends`       : a whole message.
-/

namespace AgentSupervisor

instance (a : WriteAnswer) : Decidable a.TakesSome :=
  match a with
  | .takes (n + 1) => .isTrue ⟨n, rfl⟩
  | .takes 0 => .isFalse fun ⟨_, h⟩ => by cases h
  | .refuses => .isFalse fun ⟨_, h⟩ => by cases h
  | .interrupted => .isFalse fun ⟨_, h⟩ => by cases h
  | .fails _ => .isFalse fun ⟨_, h⟩ => by cases h

namespace Terminal

variable {answers : Nat → WriteAnswer} {bs rest : Bytes} {a : WriteAnswer} {used : Terminal}
  {e : InjectError} {k m n i stalls stalls' wait : Nat} {outcome : Except InjectError Unit}

/-! ## Answers without an end -/

/-- The answers from the `m`-th one up to the `n`-th one, which is left out. -/
def between (answers : Nat → WriteAnswer) (m n : Nat) : Terminal :=
  (List.range' m (n - m)).map answers

theorem between_self (answers : Nat → WriteAnswer) (m : Nat) : between answers m m = [] := by
  rw [between, Nat.sub_self]
  rfl

theorem between_succ (h : m ≤ n) : between answers m (n + 1) = between answers m n ++ [answers n] := by
  have hlen : n + 1 - m = n - m + 1 := by omega
  have hlast : m + (n - m) = n := by omega
  rw [between, between, hlen, List.range'_1_concat, hlast, List.map_append]
  rfl

theorem length_between (answers : Nat → WriteAnswer) (m n : Nat) :
    (between answers m n).length = n - m := by
  rw [between, List.length_map, List.length_range']

theorem between_append (h₁ : m ≤ i) (h₂ : i ≤ n) :
    between answers m i ++ between answers i n = between answers m n := by
  induction n, h₂ using Nat.le_induction with
  | base => rw [between_self, List.append_nil]
  | succ n hn ih => rw [between_succ hn, between_succ (h₁.trans hn), ← List.append_assoc, ih]

theorem between_cons (h₁ : m ≤ i) (h₂ : i < n) :
    between answers m n = between answers m i ++ answers i :: between answers (i + 1) n := by
  rw [← between_append (Nat.le_succ_of_le h₁) h₂, between_succ h₁, List.append_assoc]
  rfl

theorem mem_between : a ∈ between answers m n ↔ ∃ i, m ≤ i ∧ i < n ∧ answers i = a := by
  rw [between, List.mem_map]
  constructor
  · rintro ⟨i, hi, rfl⟩
    rw [List.mem_range'_1] at hi
    exact ⟨i, hi.1, by omega, rfl⟩
  · rintro ⟨i, hm, hn, rfl⟩
    exact ⟨i, List.mem_range'_1.mpr ⟨hm, by omega⟩, rfl⟩

/-- The refusals since the terminal last took something. -/
def refusals (used : Terminal) : Nat :=
  (used.rtakeWhile fun a => ¬ a.TakesSome).count .refuses

theorem refusals_concat (used : Terminal) (a : WriteAnswer) :
    refusals (used ++ [a]) =
      if a.TakesSome then 0 else refusals used + if a = .refuses then 1 else 0 := by
  rw [refusals, List.rtakeWhile_concat]
  by_cases h : a.TakesSome
  · simp [h]
  · simp [h, refusals, List.count_append, List.count_singleton]

theorem refusals_append (h : refusals used = 0) (v : Terminal) :
    refusals (used ++ v) = refusals v := by
  induction v using List.reverseRecOn with
  | nil => rw [List.append_nil, h]; rfl
  | append_singleton v a ih =>
    rw [← List.append_assoc, refusals_concat, refusals_concat, ih]

/-! ## One write of the loop -/

theorem length_taken_le (bs : Bytes) (a : WriteAnswer) : (taken bs a).length ≤ bs.length := by
  cases a with
  | takes n => exact List.length_take_le' ..
  | refuses | interrupted | fails e => exact Nat.zero_le _

/-- What is left after a write are the bytes behind those that were taken. -/
theorem next_rest (h : next bs stalls a = .more rest stalls' wait) :
    rest = bs.drop (taken bs a).length := by
  have happ := taken_append h
  rw [← happ, List.drop_left']
  rw [happ]

/-- An answer after which the loop goes on, and the count of refusals that it leads to. -/
theorem next_stalls (h : next bs stalls a = .more rest stalls' wait) :
    (a.TakesSome ∧ stalls' = 0) ∨ (a = .refuses ∧ stalls < maxStalls ∧ stalls' = stalls + 1) ∨
      (a = .interrupted ∧ stalls' = stalls) := by
  cases a with
  | takes n =>
    cases n with
    | zero => cases h
    | succ n =>
      cases h
      exact .inl ⟨⟨n, rfl⟩, rfl⟩
  | refuses =>
    rw [next] at h
    split at h
    · rename_i hlt
      cases h
      exact .inr (.inl ⟨rfl, hlt, rfl⟩)
    · cases h
  | interrupted =>
    cases h
    exact .inr (.inr ⟨rfl, rfl⟩)
  | fails e => cases h

/-- An answer that ends the loop, and the error that it leads to. -/
theorem next_stop (h : next bs stalls a = .stop e) :
    (a = .refuses ∧ maxStalls ≤ stalls ∧ e = .stalled) ∨ (a = .takes 0 ∧ e = .io .writeZero) ∨
      ∃ i, a = .fails i ∧ e = .io i := by
  cases a with
  | takes n =>
    cases n with
    | zero =>
      cases h
      exact .inr (.inl ⟨rfl, rfl⟩)
    | succ n => cases h
  | refuses =>
    rw [next] at h
    split at h
    · cases h
    · rename_i hge
      cases h
      exact .inl ⟨rfl, Nat.le_of_not_lt hge, rfl⟩
  | interrupted => cases h
  | fails i =>
    cases h
    exact .inr (.inr ⟨i, rfl, rfl⟩)

/-! ## How far the loop has come -/

/-- After these answers the loop is still going: so many of the bytes have been taken, and so many
    refusals are counted. -/
inductive Writing (bs : Bytes) : Terminal → (taken stalls : Nat) → Prop where
  | start : Writing bs [] 0 0
  | more {used : Terminal} {k stalls : Nat} {a : WriteAnswer} {rest : Bytes} {stalls' wait : Nat}
      (h : Writing bs used k stalls) (hk : k < bs.length)
      (hn : next (bs.drop k) stalls a = .more rest stalls' wait) :
      Writing bs (used ++ [a]) (k + (taken (bs.drop k) a).length) stalls'

namespace Writing

theorem add_taken_le (hk : k ≤ bs.length) (a : WriteAnswer) :
    k + (taken (bs.drop k) a).length ≤ bs.length := by
  have hle := length_taken_le (bs.drop k) a
  rw [List.length_drop] at hle
  omega

/-- The index into the bytes never leaves its range. -/
theorem inRange (h : Writing bs used k stalls) : k ≤ bs.length := by
  cases h with
  | start => exact Nat.zero_le _
  | more h hk hn => exact add_taken_le hk.le _

/-- The count is that of the refusals since the terminal last took something. -/
theorem stalls_eq (h : Writing bs used k stalls) : stalls = refusals used := by
  induction h with
  | start => rfl
  | more h hk hn ih =>
    rw [refusals_concat, ← ih]
    rcases next_stalls hn with ⟨htakes, rfl⟩ | ⟨rfl, -, rfl⟩ | ⟨rfl, rfl⟩
    · rw [if_pos htakes]
    · rw [if_neg (by decide), if_pos rfl]
    · rw [if_neg (by decide), if_neg (by decide), Nat.add_zero]

theorem stalls_le (h : Writing bs used k stalls) : stalls ≤ maxStalls := by
  induction h with
  | start => exact Nat.zero_le _
  | more h hk hn ih =>
    rcases next_stalls hn with ⟨-, rfl⟩ | ⟨-, hlt, rfl⟩ | ⟨-, rfl⟩
    · exact Nat.zero_le _
    · exact hlt
    · exact ih

/-- None of the answers ends the loop. -/
theorem goes_on (h : Writing bs used k stalls) (ha : a ∈ used) :
    a ≠ .takes 0 ∧ ∀ i, a ≠ .fails i := by
  induction h with
  | start => cases ha
  | more h hk hn ih =>
    rcases List.mem_append.mp ha with ha | ha
    · exact ih ha
    · rw [List.mem_singleton.mp ha]
      rcases next_stalls hn with ⟨⟨n, rfl⟩, -⟩ | ⟨rfl, -, -⟩ | ⟨rfl, -⟩ <;> simp

/-- The loop was going on before each of its answers. -/
theorem before {v : Terminal} (h : Writing bs (used ++ a :: v) k stalls) :
    ∃ k stalls, Writing bs used k stalls ∧ k < bs.length := by
  generalize hw : used ++ a :: v = w at h
  induction h generalizing v with
  | start => simp at hw
  | @more used' k stalls b rest stalls' wait h hk hn ih =>
    rcases List.eq_nil_or_concat v with rfl | ⟨v, c, rfl⟩
    · obtain ⟨rfl, -⟩ := List.append_inj' hw rfl
      exact ⟨k, stalls, h, hk⟩
    · rw [List.concat_eq_append, ← List.cons_append, ← List.append_assoc] at hw
      exact ih (List.append_inj' hw rfl).1

/-- Once all bytes have been taken no refusal is counted. -/
theorem refusals_eq_zero (h : Writing bs used bs.length stalls) : refusals used = 0 := by
  rw [← h.stalls_eq]
  generalize hall : bs.length = k at h
  cases h with
  | start => rfl
  | @more used k stalls a rest stalls' wait h hk hn =>
    rcases next_stalls hn with ⟨-, hzero⟩ | ⟨rfl, -, -⟩ | ⟨rfl, -⟩
    · exact hzero
    · exact absurd hall hk.ne'
    · exact absurd hall hk.ne'

/-- **What is typed** is what has been taken so far and what the loop makes of the rest. -/
theorem typeAll_eq (h : Writing bs used k stalls) : ∃ slept, ∀ more,
    typeAll (used ++ more) 0 bs =
      (typeAll more stalls (bs.drop k)).after (bs.take k) slept used.length := by
  induction h with
  | start => exact ⟨0, fun more => (Typing.after_nil _).symm⟩
  | @more used k stalls a rest stalls' wait h hk hn ih =>
    obtain ⟨slept, hslept⟩ := ih
    have hne : bs.drop k ≠ [] := by
      rw [ne_eq, List.drop_eq_nil_iff]
      omega
    have htaken : bs.take (k + (taken (bs.drop k) a).length) =
        bs.take k ++ taken (bs.drop k) a := by
      rw [List.take_add, ← List.prefix_iff_eq_take.mp ⟨rest, taken_append hn⟩]
    refine ⟨slept + wait, fun more => ?_⟩
    rw [List.append_assoc, List.singleton_append, hslept, typeAll_more more hne hn,
      Typing.after_after, next_rest hn, List.drop_drop, htaken, List.length_append,
      List.length_singleton]

end Writing

/-! ## How the loop ends -/

/-- With these answers the loop ends: what it returns, and how many of the bytes were taken. -/
inductive Ends (bs : Bytes) : Terminal → Except InjectError Unit → (taken : Nat) → Prop where
  | done {used : Terminal} {stalls : Nat} (h : Writing bs used bs.length stalls) :
      Ends bs used (.ok ()) bs.length
  | stopped {used : Terminal} {k stalls : Nat} {a : WriteAnswer} {e : InjectError}
      (h : Writing bs used k stalls) (hk : k < bs.length)
      (hn : next (bs.drop k) stalls a = .stop e) : Ends bs (used ++ [a]) (.error e) k

namespace Ends

/-- The loop ends with its last answer, whatever would be answered after it. -/
theorem typeAll_eq (h : Ends bs used outcome k) : ∃ slept, ∀ more,
    typeAll (used ++ more) 0 bs = ⟨outcome, bs.take k, slept, used.length, more⟩ := by
  cases h with
  | done h =>
    obtain ⟨slept, hslept⟩ := h.typeAll_eq
    refine ⟨slept, fun more => ?_⟩
    rw [hslept, List.drop_length, typeAll_nil, Typing.after]
    simp
  | @stopped used k stalls a e h hk hn =>
    obtain ⟨slept, hslept⟩ := h.typeAll_eq
    have hne : bs.drop k ≠ [] := by
      rw [ne_eq, List.drop_eq_nil_iff]
      omega
    refine ⟨slept, fun more => ?_⟩
    rw [List.append_assoc, List.singleton_append, hslept, typeAll_stop more hne hn, Typing.after]
    simp

/-- The loop was going on before each of its answers. -/
theorem before {v : Terminal} (h : Ends bs (used ++ a :: v) outcome k) :
    ∃ k stalls, Writing bs used k stalls ∧ k < bs.length := by
  generalize hw : used ++ a :: v = w at h
  cases h with
  | done h =>
    subst hw
    exact h.before
  | @stopped used' k stalls b e h hk hn =>
    rcases List.eq_nil_or_concat v with rfl | ⟨v, c, rfl⟩
    · obtain ⟨rfl, -⟩ := List.append_inj' hw rfl
      exact ⟨k, stalls, h, hk⟩
    · rw [List.concat_eq_append, ← List.cons_append, ← List.append_assoc] at hw
      obtain ⟨rfl, -⟩ := List.append_inj' hw rfl
      exact h.before

theorem written (h : Ends bs used (.ok ()) k) :
    k = bs.length ∧ ∃ stalls, Writing bs used bs.length stalls := by
  cases h with
  | done h => exact ⟨rfl, _, h⟩

/-- The loop gives up at the refusal after the last one that is waited out, and only there. -/
theorem stalled_iff (h : Ends bs used outcome k) :
    outcome = .error .stalled ↔ refusals used = maxStalls + 1 := by
  cases h with
  | done h =>
    have hle := h.stalls_le
    rw [h.stalls_eq] at hle
    constructor
    · intro hout
      cases hout
    · intro hcount
      omega
  | stopped h hk hn =>
    have hle := h.stalls_le
    have heq := h.stalls_eq
    rw [refusals_concat, ← heq]
    rcases next_stop hn with ⟨rfl, hge, rfl⟩ | ⟨rfl, rfl⟩ | ⟨i, rfl, rfl⟩
    · rw [if_neg (by decide), if_pos rfl]
      exact ⟨fun _ => by omega, fun _ => rfl⟩
    · rw [if_neg (by decide), if_neg (by decide)]
      exact ⟨fun hout => by simp at hout, fun hcount => by omega⟩
    · have hnot : ¬ (WriteAnswer.fails i).TakesSome := fun ⟨n, hn⟩ => by cases hn
      rw [if_neg hnot, if_neg (by simp)]
      exact ⟨fun hout => by simp at hout, fun hcount => by omega⟩

/-- The error of the device, or one of its own where the terminal took nothing, is the answer
    that the loop has met. -/
theorem io_iff (h : Ends bs used outcome k) (i : IoError) :
    outcome = .error (.io i) ↔
      ∃ a ∈ used, a = .fails i ∨ a = .takes 0 ∧ i = .writeZero := by
  cases h with
  | done h =>
    constructor
    · intro hout
      cases hout
    · rintro ⟨a, ha, hbreaks⟩
      obtain ⟨hzero, hfails⟩ := h.goes_on ha
      rcases hbreaks with rfl | ⟨rfl, -⟩
      · exact absurd rfl (hfails i)
      · exact absurd rfl hzero
  | @stopped used k stalls a e h hk hn =>
    have hlast : e = .io i ↔ a = .fails i ∨ a = .takes 0 ∧ i = .writeZero := by
      rcases next_stop hn with ⟨rfl, -, rfl⟩ | ⟨rfl, rfl⟩ | ⟨j, rfl, rfl⟩
      · simp
      · simp [eq_comm]
      · simp
    rw [Except.error.injEq, hlast]
    constructor
    · intro hbreaks
      exact ⟨a, List.mem_append_right _ (List.mem_singleton.mpr rfl), hbreaks⟩
    · rintro ⟨b, hb, hbreaks⟩
      rcases List.mem_append.mp hb with hb | hb
      · obtain ⟨hzero, hfails⟩ := h.goes_on hb
        rcases hbreaks with rfl | ⟨rfl, -⟩
        · exact absurd rfl (hfails i)
        · exact absurd rfl hzero
      · rw [← List.mem_singleton.mp hb]
        exact hbreaks

end Ends

/-! ## The loop comes to an end -/

/-- Interruptions leave the loop where it is. -/
theorem Writing.skip (h : Writing bs (between answers m i) k stalls) (hk : k < bs.length)
    (hm : m ≤ i) (hin : i ≤ n) (hskip : ∀ j, i ≤ j → j < n → answers j = .interrupted) :
    Writing bs (between answers m n) k stalls := by
  induction n, hin using Nat.le_induction with
  | base => exact h
  | succ n hn ih =>
    have hbefore := ih fun j hij hjn => hskip j hij (by omega)
    have hnext : next (bs.drop k) stalls (answers n) = .more (bs.drop k) stalls 0 := by
      rw [hskip n hn (by omega)]
      rfl
    have hmore := hbefore.more hk hnext
    rw [hskip n hn (by omega)] at hmore
    rw [between_succ (hm.trans hn), hskip n hn (by omega)]
    exact hmore

/-- From wherever it has come to, the loop comes to an end. What decreases are the bytes that are
    left, and while none is taken the refusals that may still be waited out. -/
theorem Writing.exists_ends {i k stalls : Nat}
    (hfair : ∀ i, ∃ j, i ≤ j ∧ answers j ≠ .interrupted)
    (h : Writing bs (between answers m i) k stalls) (hm : m ≤ i) :
    ∃ n outcome k, m ≤ n ∧ Ends bs (between answers m n) outcome k := by
  by_cases hk : k = bs.length
  · subst hk
    exact ⟨i, _, _, hm, .done h⟩
  · have hlt : k < bs.length := lt_of_le_of_ne h.inRange hk
    obtain ⟨j, hij, hj, hskip⟩ : ∃ j, i ≤ j ∧ answers j ≠ .interrupted ∧
        ∀ l, i ≤ l → l < j → answers l = .interrupted := by
      classical
      have hsome := hfair i
      refine ⟨Nat.find hsome, (Nat.find_spec hsome).1, (Nat.find_spec hsome).2, ?_⟩
      intro l hil hlj
      by_contra hl
      exact Nat.find_min hsome hlj ⟨hil, hl⟩
    have hthere := h.skip hlt hm hij hskip
    have hmj := hm.trans hij
    cases hn : next (bs.drop k) stalls (answers j) with
    | stop e =>
      have hstop := Ends.stopped hthere hlt hn
      rw [← between_succ hmj] at hstop
      exact ⟨j + 1, _, _, by omega, hstop⟩
    | more rest stalls' wait =>
      have hmore := hthere.more hlt hn
      rw [← between_succ hmj] at hmore
      have hdecreases : Prod.Lex (· < ·) (· < ·)
          (bs.length - (k + (taken (bs.drop k) (answers j)).length), maxStalls - stalls')
          (bs.length - k, maxStalls - stalls) := by
        rcases next_stalls hn with ⟨htakes, -⟩ | ⟨hrefuses, hroom, rfl⟩ | ⟨hinterrupted, -⟩
        · have hne : bs.drop k ≠ [] := by
            rw [ne_eq, List.drop_eq_nil_iff]
            omega
          have hpos := List.length_pos_iff.mpr ((taken_ne_nil hne).mpr htakes)
          exact .left _ _ (by omega)
        · rw [hrefuses]
          exact .right _ (by omega)
        · exact absurd hinterrupted hj
      exact hmore.exists_ends hfair (by omega)
termination_by (bs.length - k, maxStalls - stalls)
decreasing_by exact hdecreases

/-- **The loop comes to an end**, unless there is nothing but interruptions from some write on. -/
theorem exists_ends (hfair : ∀ i, ∃ j, i ≤ j ∧ answers j ≠ .interrupted) (bs : Bytes) (m : Nat) :
    ∃ n outcome k, m ≤ n ∧ Ends bs (between answers m n) outcome k := by
  have hstart : Writing bs (between answers m m) 0 0 := by
    rw [between_self]
    exact .start
  exact hstart.exists_ends hfair le_rfl

/-! ## A whole message -/

/-- The writes of a message, and the answers at which they begin: that of the text at the first
    one, that of the Enter key once the text has been taken. -/
inductive Begins (answers : Nat → WriteAnswer) (text : Bytes) : Nat → Bytes → Prop where
  | ofText : Begins answers text 0 text
  | ofEnter {m stalls : Nat} (h : Writing text (between answers 0 m) text.length stalls) :
      Begins answers text m [enter]

variable {text : Bytes} {settle : Nat} {t : Typing}

/-- The message ends with one of its writes, and with the last answer to that. -/
structure EndsIn (answers : Nat → WriteAnswer) (settle : Nat) (text : Bytes) (t : Typing)
    (m : Nat) (bs : Bytes) : Prop where
  begins : Begins answers text m bs
  le : m ≤ t.writes
  ends : ∃ k, Ends bs (between answers m t.writes) t.outcome k
  eq : ∀ more, inject settle (between answers 0 t.writes ++ more) text = { t with terminal := more }

theorem exists_endsIn (hfair : ∀ i, ∃ j, i ≤ j ∧ answers j ≠ .interrupted) (settle : Nat)
    (text : Bytes) : ∃ t m bs, EndsIn answers settle text t m bs := by
  obtain ⟨n₁, o₁, k₁, -, hends₁⟩ := exists_ends hfair text 0
  obtain ⟨slept₁, htext⟩ := hends₁.typeAll_eq
  rw [length_between, Nat.sub_zero] at htext
  cases o₁ with
  | error e =>
    refine ⟨⟨.error e, text.take k₁, slept₁, n₁, []⟩, 0, text, .ofText, Nat.zero_le _,
      ⟨k₁, hends₁⟩, fun more => ?_⟩
    rw [inject_eq, typeFrom_error (by rw [htext]), htext]
  | ok u =>
    obtain ⟨rfl, stalls, hwritten⟩ := hends₁.written
    obtain ⟨n, o, k, hn, hends⟩ := exists_ends hfair [enter] n₁
    obtain ⟨slept, henter⟩ := hends.typeAll_eq
    rw [length_between] at henter
    refine ⟨⟨o, text ++ [enter].take k, slept₁ + settle + slept, n, []⟩, n₁, [enter],
      .ofEnter hwritten, hn, ⟨k, hends⟩, fun more => ?_⟩
    have htext' := htext (between answers n₁ n ++ more)
    rw [List.take_length] at htext'
    rw [← between_append (Nat.zero_le n₁) hn, List.append_assoc, inject_eq,
      typeFrom_ok (by rw [htext']), htext', henter, Typing.after]
    simp only [Nat.add_sub_cancel' hn]

namespace EndsIn

/-- Refusals are counted in the write that they belong to. -/
theorem refusals_of_begins (h : EndsIn answers settle text t m bs) {m' : Nat} {bs' : Bytes}
    (hb : Begins answers text m' bs') (hle : m' ≤ t.writes) :
    refusals (between answers m' t.writes) = refusals (between answers m t.writes) := by
  obtain ⟨k, hends⟩ := h.ends
  have hm := h.le
  have hskips : ∀ {m stalls}, Writing text (between answers 0 m) text.length stalls →
      m ≤ t.writes →
      refusals (between answers 0 t.writes) = refusals (between answers m t.writes) := by
    intro m stalls hw hm
    rw [← between_append (Nat.zero_le m) hm, refusals_append hw.refusals_eq_zero]
  cases h.begins with
  | ofText =>
    cases hb with
    | ofText => rfl
    | ofEnter hw' => exact (hskips hw' hle).symm
  | ofEnter hw =>
    cases hb with
    | ofText => exact hskips hw hm
    | ofEnter hw' => rw [← hskips hw' hle, hskips hw hm]

theorem stalled_iff (h : EndsIn answers settle text t m bs) : t.outcome = .error .stalled ↔
    ∃ m bs, Begins answers text m bs ∧ m ≤ t.writes ∧
      refusals (between answers m t.writes) = maxStalls + 1 := by
  obtain ⟨k, hends⟩ := h.ends
  rw [hends.stalled_iff]
  constructor
  · intro hcount
    exact ⟨m, bs, h.begins, h.le, hcount⟩
  · rintro ⟨m', bs', hb, hle, hcount⟩
    rw [← h.refusals_of_begins hb hle, hcount]

theorem io_iff (h : EndsIn answers settle text t m bs) (e : IoError) :
    t.outcome = .error (.io e) ↔
      ∃ i < t.writes, answers i = .fails e ∨ answers i = .takes 0 ∧ e = .writeZero := by
  obtain ⟨k, hends⟩ := h.ends
  rw [hends.io_iff]
  constructor
  · rintro ⟨a, ha, hbreaks⟩
    obtain ⟨i, -, hi, rfl⟩ := mem_between.mp ha
    exact ⟨i, hi, hbreaks⟩
  · rintro ⟨i, hi, hbreaks⟩
    rcases Nat.lt_or_ge i m with him | him
    · -- the text has been taken before, so none of its answers ended the loop
      cases h.begins with
      | ofText => exact absurd him (Nat.not_lt_zero i)
      | ofEnter hw =>
        obtain ⟨hzero, hfails⟩ := hw.goes_on (mem_between.mpr ⟨i, Nat.zero_le i, him, rfl⟩)
        rcases hbreaks with hb | ⟨hb, -⟩
        · exact absurd hb (hfails e)
        · exact absurd hb hzero
    · exact ⟨answers i, mem_between.mpr ⟨i, him, hi, rfl⟩, hbreaks⟩

/-- Each write of the loop offers what is left of the text or the Enter key, and never takes more
    than that. -/
theorem inRange (h : EndsIn answers settle text t m bs) (hi : i < t.writes) :
    ∃ m bs k stalls, Begins answers text m bs ∧ m ≤ i ∧
      Writing bs (between answers m i) k stalls ∧ k < bs.length ∧
      k + (taken (bs.drop k) (answers i)).length ≤ bs.length := by
  rcases Nat.lt_or_ge i m with him | him
  · cases h.begins with
    | ofText => exact absurd him (Nat.not_lt_zero i)
    | ofEnter hw =>
      rw [between_cons (Nat.zero_le i) him] at hw
      obtain ⟨k, stalls, hbefore, hk⟩ := hw.before
      exact ⟨0, text, k, stalls, .ofText, Nat.zero_le i, hbefore, hk,
        Writing.add_taken_le hk.le _⟩
  · obtain ⟨_, hends⟩ := h.ends
    rw [between_cons him hi] at hends
    obtain ⟨k, stalls, hbefore, hk⟩ := hends.before
    exact ⟨m, bs, k, stalls, h.begins, him, hbefore, hk, Writing.add_taken_le hk.le _⟩

end EndsIn

/-- **Typing a message comes to an end**, whatever the terminal answers, unless there is nothing
    but interruptions from some write on. It makes so many writes, whatever would be answered
    after them. It succeeds exactly when the terminal has taken the text and the Enter key, and
    otherwise the terminal has taken a proper part of them. It gives up exactly at the 201st
    refusal since the terminal last took something in the write of the text or in that of the
    Enter key, and any other error is the one that the terminal answered, where taking nothing is
    one as well. Each write offers what is left from an index in the text or the Enter key, which
    what is taken does not move out of its range. -/
theorem inject_ends (hfair : ∀ i, ∃ j, i ≤ j ∧ answers j ≠ .interrupted) (settle : Nat)
    (text : Bytes) :
    ∃ t : Typing,
      (∀ more, inject settle (between answers 0 t.writes ++ more) text =
        { t with terminal := more }) ∧
      (t.outcome = .ok () ↔ t.accepted = text ++ [enter]) ∧
      (∀ e, t.outcome = .error e →
        t.accepted <+: text ++ [enter] ∧ t.accepted ≠ text ++ [enter]) ∧
      (t.outcome = .error .stalled ↔ ∃ m bs, Begins answers text m bs ∧ m ≤ t.writes ∧
        refusals (between answers m t.writes) = maxStalls + 1) ∧
      (∀ e, t.outcome = .error (.io e) ↔
        ∃ i < t.writes, answers i = .fails e ∨ answers i = .takes 0 ∧ e = .writeZero) ∧
      ∀ i < t.writes, ∃ m bs k stalls, Begins answers text m bs ∧ m ≤ i ∧
        Writing bs (between answers m i) k stalls ∧ k < bs.length ∧
        k + (taken (bs.drop k) (answers i)).length ≤ bs.length := by
  obtain ⟨t, m, bs, h⟩ := exists_endsIn hfair settle text
  have htypes : t.Types (text ++ [enter]) := by
    have hall := inject_types settle (between answers 0 t.writes ++ []) text
    rw [h.eq] at hall
    exact hall
  refine ⟨t, h.eq, ⟨htypes.complete, fun hall => ?_⟩, fun e => htypes.partial, h.stalled_iff,
    h.io_iff, fun i => h.inRange⟩
  cases ho : t.outcome with
  | ok u => rfl
  | error e => exact absurd hall (htypes.partial ho).2

/-- A terminal that is interrupted before it takes each single byte gets the whole message. -/
theorem inject_ends_interrupted : ∃ t : Typing,
    (∀ more, inject 50 (between (fun i => if i % 2 = 0 then .interrupted else .takes 1) 0 t.writes
      ++ more) [104, 105] = { t with terminal := more }) ∧ t.accepted = [104, 105, 13] := by
  generalize ha : (fun i : Nat => if i % 2 = 0 then WriteAnswer.interrupted else .takes 1) = answers
  have heven : ∀ i, answers i = if i % 2 = 0 then .interrupted else .takes 1 := fun i => by
    rw [← ha]
  have hfair : ∀ i, ∃ j, i ≤ j ∧ answers j ≠ .interrupted := fun i =>
    ⟨2 * i + 1, by omega, by rw [heven, if_neg (by omega)]; decide⟩
  obtain ⟨t, heq, hok, -, hstalled, hio, -⟩ := inject_ends hfair 50 [104, 105]
  refine ⟨t, heq, hok.mp ?_⟩
  cases ho : t.outcome with
  | ok u => rfl
  | error e =>
    cases e with
    | stalled =>
      obtain ⟨m, bs, -, -, hcount⟩ := hstalled.mp ho
      have hnone : refusals (between answers m t.writes) = 0 := by
        rw [refusals, List.count_eq_zero]
        intro hmem
        obtain ⟨i, -, -, hi⟩ := mem_between.mp ((List.rtakeWhile_suffix _ _).subset hmem)
        rw [heven] at hi
        split at hi <;> cases hi
      rw [hnone] at hcount
      cases hcount
    | io e =>
      obtain ⟨i, -, hi⟩ := (hio e).mp ho
      rw [heven] at hi
      split at hi <;> simp at hi

end Terminal

end AgentSupervisor
