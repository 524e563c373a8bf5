import AgentSupervisor.Terminal.Injection

/-!
# What a terminal takes

Whatever a terminal answers, it takes the bytes in order: all of them if the typing succeeds and a
proper part of them if it fails.

* `Typing.Types`      : the bytes were typed, completely or up to a failure;
* `Typing.Uses`       : the answers that were used up, and when they took something;
* `Terminal.typeFrom` : the rest of a message, from a place within its text on.
-/

namespace AgentSupervisor

/-- The answer takes at least one byte. -/
def WriteAnswer.TakesSome (a : WriteAnswer) : Prop := ∃ n, a = .takes (n + 1)

namespace Typing

variable {t : Typing} {bs : Bytes} {terminal used : Terminal} {slept writes : Nat}

theorem after_after (t : Typing) (bs cs : Bytes) (k l m n : Nat) :
    (t.after bs k l).after cs m n = t.after (cs ++ bs) (m + k) (n + l) := by
  simp only [after, List.append_assoc, Nat.add_assoc]

theorem after_nil (t : Typing) : t.after [] 0 0 = t := by
  simp only [after, List.nil_append, Nat.zero_add]

/-! ## Completely or in part -/

/-- The bytes were typed in order, and nothing was left of them exactly when that succeeded. -/
def Types (t : Typing) (bs : Bytes) : Prop :=
  ∃ rest, t.accepted ++ rest = bs ∧ (t.outcome = .ok () ↔ rest = [])

theorem Types.after (h : t.Types bs) (acc : Bytes) (slept writes : Nat) :
    (t.after acc slept writes).Types (acc ++ bs) := by
  obtain ⟨rest, happ, hok⟩ := h
  refine ⟨rest, ?_, hok⟩
  rw [← happ]
  exact List.append_assoc ..

theorem Types.complete (h : t.Types bs) (hok : t.outcome = .ok ()) : t.accepted = bs := by
  obtain ⟨rest, happ, hrest⟩ := h
  rw [← happ, hrest.mp hok, List.append_nil]

/-- Where typing failed, the terminal took a proper part of the bytes. -/
theorem Types.partial (h : t.Types bs) {e : InjectError} (he : t.outcome = .error e) :
    t.accepted <+: bs ∧ t.accepted ≠ bs := by
  obtain ⟨rest, happ, hrest⟩ := h
  refine ⟨⟨rest, happ⟩, ?_⟩
  intro heq
  have hnil : rest = [] := by
    rw [← heq] at happ
    simpa using happ
  rw [hrest.mpr hnil] at he
  cases he

/-! ## Answers that were used up -/

/-- These answers of the terminal were used up. It took something exactly when one of them did,
    unless they ran out and it took the rest of the bytes. -/
structure Uses (t : Typing) (terminal used : Terminal) : Prop where
  split : terminal = used ++ t.terminal
  took : (∃ a ∈ used, a.TakesSome) → t.accepted ≠ []
  source : t.accepted ≠ [] → (∃ a ∈ used, a.TakesSome) ∨ t.outcome = .ok () ∧ t.terminal = []

theorem Uses.accepted_eq_nil (h : t.Uses terminal used) {e : InjectError}
    (he : t.outcome = .error e) : t.accepted = [] ↔ ∀ a ∈ used, ¬ a.TakesSome := by
  constructor
  · intro hnil a ha htakes
    exact h.took ⟨a, ha, htakes⟩ hnil
  · intro hnone
    by_cases hnil : t.accepted = []
    · exact hnil
    · rcases h.source hnil with ⟨a, ha, htakes⟩ | ⟨hok, -⟩
      · exact absurd htakes (hnone a ha)
      · rw [hok] at he
        cases he

/-- One typing after another uses what both of them use. -/
theorem Uses.append {t₁ : Typing} {used₁ : Terminal} (h₁ : t₁.Uses terminal used₁)
    (h : t.Uses t₁.terminal used) (hend : t₁.terminal = [] → t.outcome = .ok ()) :
    (t.after t₁.accepted slept writes).Uses terminal (used₁ ++ used) := by
  refine ⟨?_, ?_, ?_⟩
  · rw [List.append_assoc, h₁.split, h.split]
    rfl
  · rintro ⟨a, ha, htakes⟩
    show t₁.accepted ++ t.accepted ≠ []
    rw [ne_eq, List.append_eq_nil_iff]
    rintro ⟨hnil₁, hnil⟩
    rcases List.mem_append.mp ha with ha | ha
    · exact h₁.took ⟨a, ha, htakes⟩ hnil₁
    · exact h.took ⟨a, ha, htakes⟩ hnil
  · intro hne
    by_cases hnil : t.accepted = []
    · have hne₁ : t₁.accepted ≠ [] := by
        intro hnil₁
        apply hne
        show t₁.accepted ++ t.accepted = []
        rw [hnil₁, hnil, List.append_nil]
      rcases h₁.source hne₁ with ⟨a, ha, htakes⟩ | ⟨-, hempty⟩
      · exact .inl ⟨a, List.mem_append_left _ ha, htakes⟩
      · -- the first one used up all answers, so nothing can stop the second one
        have hsplit := h.split
        rw [hempty] at hsplit
        exact .inr ⟨hend hempty, (List.append_eq_nil_iff.mp hsplit.symm).2⟩
    · rcases h.source hnil with ⟨a, ha, htakes⟩ | hdone
      · exact .inl ⟨a, List.mem_append_right _ ha, htakes⟩
      · exact .inr hdone

end Typing

namespace Terminal

variable {a : WriteAnswer} {bs rest text : Bytes} {stalls stalls' wait settle : Nat}
  {e : InjectError} {terminal : Terminal}

/-! ## One write -/

theorem taken_append (h : next bs stalls a = .more rest stalls' wait) : taken bs a ++ rest = bs := by
  cases a with
  | takes n =>
    cases n with
    | zero => cases h
    | succ n =>
      cases h
      exact List.take_append_drop ..
  | refuses =>
    rw [next] at h
    split at h
    · cases h
      rfl
    · cases h
  | interrupted =>
    cases h
    rfl
  | fails e => cases h

theorem taken_of_stop (h : next bs stalls a = .stop e) : taken bs a = [] := by
  cases a with
  | takes n =>
    cases n with
    | zero => rfl
    | succ n => cases h
  | refuses => rfl
  | interrupted => rfl
  | fails e => rfl

theorem taken_ne_nil (h : bs ≠ []) : taken bs a ≠ [] ↔ a.TakesSome := by
  cases a with
  | takes n =>
    cases n with
    | zero => simp [taken, WriteAnswer.TakesSome]
    | succ n => simp [taken, WriteAnswer.TakesSome, h]
  | refuses => simp [taken, WriteAnswer.TakesSome]
  | interrupted => simp [taken, WriteAnswer.TakesSome]
  | fails e => simp [taken, WriteAnswer.TakesSome]

/-! ## One part of a message -/

theorem typeAll_nil (terminal : Terminal) (stalls : Nat) :
    terminal.typeAll stalls [] = { outcome := .ok (), terminal } := by
  cases terminal <;> rfl

/-- A terminal without answers takes everything. -/
theorem typeAll_exhausted (stalls : Nat) (bs : Bytes) :
    (typeAll [] stalls bs).outcome = .ok () ∧ (typeAll [] stalls bs).accepted = bs ∧
      (typeAll [] stalls bs).terminal = [] := by
  cases bs with
  | nil => exact ⟨rfl, rfl, rfl⟩
  | cons b bs => exact ⟨rfl, rfl, rfl⟩

theorem typeAll_more (terminal : Terminal) (hbs : bs ≠ [])
    (h : next bs stalls a = .more rest stalls' wait) :
    typeAll (a :: terminal) stalls bs =
      (terminal.typeAll stalls' rest).after (taken bs a) wait 1 := by
  cases bs with
  | nil => exact absurd rfl hbs
  | cons b bs => rw [typeAll, h]

theorem typeAll_stop (terminal : Terminal) (hbs : bs ≠ []) (h : next bs stalls a = .stop e) :
    typeAll (a :: terminal) stalls bs = { outcome := .error e, writes := 1, terminal } := by
  cases bs with
  | nil => exact absurd rfl hbs
  | cons b bs => rw [typeAll, h]

theorem typeAll_types (terminal : Terminal) (stalls : Nat) (bs : Bytes) :
    (terminal.typeAll stalls bs).Types bs := by
  induction terminal generalizing stalls bs with
  | nil =>
    obtain ⟨hok, hacc, -⟩ := typeAll_exhausted stalls bs
    exact ⟨[], by rw [hacc, List.append_nil], by simp [hok]⟩
  | cons a terminal ih =>
    by_cases hbs : bs = []
    · rw [hbs, typeAll_nil]
      exact ⟨[], rfl, by simp⟩
    · cases hn : next bs stalls a with
      | more rest stalls' wait =>
        have htypes := (ih stalls' rest).after (taken bs a) wait 1
        rw [taken_append hn] at htypes
        rw [typeAll_more terminal hbs hn]
        exact htypes
      | stop e =>
        rw [typeAll_stop terminal hbs hn]
        exact ⟨bs, rfl, by simp [hbs]⟩

theorem typeAll_uses (terminal : Terminal) (stalls : Nat) (bs : Bytes) :
    ∃ used, (terminal.typeAll stalls bs).Uses terminal used := by
  induction terminal generalizing stalls bs with
  | nil =>
    obtain ⟨hok, -, hend⟩ := typeAll_exhausted stalls bs
    exact ⟨[], by rw [hend]; rfl, by simp, fun _ => .inr ⟨hok, hend⟩⟩
  | cons a terminal ih =>
    by_cases hbs : bs = []
    · rw [hbs, typeAll_nil]
      exact ⟨[], rfl, by simp, by simp⟩
    · cases hn : next bs stalls a with
      | more rest stalls' wait =>
        obtain ⟨used, h⟩ := ih stalls' rest
        have hfirst : Typing.Uses ⟨.ok (), taken bs a, wait, 1, terminal⟩ (a :: terminal) [a] :=
          ⟨rfl, by simpa using (taken_ne_nil hbs).mpr,
            fun hne => .inl ⟨a, by simp, (taken_ne_nil hbs).mp hne⟩⟩
        refine ⟨[a] ++ used, ?_⟩
        rw [typeAll_more terminal hbs hn]
        refine hfirst.append h ?_
        rintro rfl
        exact (typeAll_exhausted ..).1
      | stop e =>
        rw [typeAll_stop terminal hbs hn]
        refine ⟨[a], rfl, ?_, by simp⟩
        rintro ⟨a', ha', htakes⟩
        rw [List.mem_singleton.mp ha'] at htakes
        exact absurd (taken_of_stop hn) ((taken_ne_nil hbs).mpr htakes)

/-! ## A whole message -/

/-- Type what is left of a text after so many refusals in a row, and press Enter. -/
def typeFrom (settle : Nat) (terminal : Terminal) (stalls : Nat) (rest : Bytes) : Typing :=
  let first := terminal.typeAll stalls rest
  match first.outcome with
  | .error _ => first
  | .ok () =>
    (first.terminal.typeAll 0 [enter]).after first.accepted (first.slept + settle) first.writes

theorem inject_eq (settle : Nat) (terminal : Terminal) (text : Bytes) :
    terminal.inject settle text = typeFrom settle terminal 0 text := rfl

theorem typeFrom_ok (h : (terminal.typeAll stalls rest).outcome = .ok ()) :
    typeFrom settle terminal stalls rest =
      ((terminal.typeAll stalls rest).terminal.typeAll 0 [enter]).after
        (terminal.typeAll stalls rest).accepted
        ((terminal.typeAll stalls rest).slept + settle) (terminal.typeAll stalls rest).writes := by
  simp only [typeFrom, h]

theorem typeFrom_error (h : (terminal.typeAll stalls rest).outcome = .error e) :
    typeFrom settle terminal stalls rest = terminal.typeAll stalls rest := by
  simp only [typeFrom, h]

theorem typeFrom_nil (settle : Nat) (terminal : Terminal) (stalls : Nat) :
    typeFrom settle terminal stalls [] = (terminal.typeAll 0 [enter]).after [] settle 0 := by
  have hnil := typeAll_nil terminal stalls
  rw [typeFrom_ok (by rw [hnil]), hnil]
  simp

theorem typeFrom_more (settle : Nat) (terminal : Terminal) (hbs : bs ≠ [])
    (h : next bs stalls a = .more rest stalls' wait) :
    typeFrom settle (a :: terminal) stalls bs =
      (typeFrom settle terminal stalls' rest).after (taken bs a) wait 1 := by
  have hmore := typeAll_more terminal hbs h
  cases ho : (terminal.typeAll stalls' rest).outcome with
  | error e =>
    rw [typeFrom_error ho, ← hmore]
    exact typeFrom_error (by rw [hmore]; exact ho)
  | ok u =>
    rw [typeFrom_ok ho, typeFrom_ok (by rw [hmore]; exact ho), hmore, Typing.after_after]
    simp only [Typing.after, Nat.add_assoc]

theorem typeFrom_stop (settle : Nat) (terminal : Terminal) (hbs : bs ≠ [])
    (h : next bs stalls a = .stop e) :
    typeFrom settle (a :: terminal) stalls bs = { outcome := .error e, writes := 1, terminal } := by
  have hstop := typeAll_stop terminal hbs h
  rw [← hstop]
  exact typeFrom_error (by rw [hstop])

/-- **A message is typed with its Enter key**, completely or up to a failure. -/
theorem inject_types (settle : Nat) (terminal : Terminal) (text : Bytes) :
    (terminal.inject settle text).Types (text ++ [enter]) := by
  have hfirst := typeAll_types terminal 0 text
  rw [inject_eq]
  cases ho : (terminal.typeAll 0 text).outcome with
  | ok u =>
    rw [typeFrom_ok ho, hfirst.complete ho]
    exact (typeAll_types ..).after ..
  | error e =>
    obtain ⟨rest, happ, -⟩ := hfirst
    rw [typeFrom_error ho]
    refine ⟨rest ++ [enter], ?_, by simp [ho]⟩
    rw [← List.append_assoc, happ]

theorem inject_uses (settle : Nat) (terminal : Terminal) (text : Bytes) :
    ∃ used, (terminal.inject settle text).Uses terminal used := by
  obtain ⟨used₁, h₁⟩ := typeAll_uses terminal 0 text
  rw [inject_eq]
  cases ho : (terminal.typeAll 0 text).outcome with
  | ok u =>
    obtain ⟨used, h⟩ := typeAll_uses (terminal.typeAll 0 text).terminal 0 [enter]
    rw [typeFrom_ok ho]
    refine ⟨used₁ ++ used, h₁.append h ?_⟩
    intro hend
    rw [hend]
    exact (typeAll_exhausted ..).1
  | error e =>
    rw [typeFrom_error ho]
    exact ⟨used₁, h₁⟩

/-! ## A row of messages -/

/-- Messages one after another, when it is known what each of them does with the answers that are
    its own. -/
theorem injectAll_flatMap {ι : Type} {answers : ι → Terminal} {text typed : ι → Bytes}
    {outcome : ι → Option (Except InjectError Unit)} (messages : List ι)
    (h : ∀ i ∈ messages, ∀ more,
      some (inject settle (answers i ++ more) (text i)).outcome = outcome i ∧
      (inject settle (answers i ++ more) (text i)).accepted = typed i ∧
      (inject settle (answers i ++ more) (text i)).terminal = more) (more : Terminal) :
    (injectAll settle (messages.flatMap answers ++ more) (messages.map text)).map
        (fun t => (some t.outcome, t.accepted)) =
      messages.map fun i => (outcome i, typed i) := by
  induction messages with
  | nil => rfl
  | cons i messages ih =>
    obtain ⟨hout, hacc, hend⟩ := h i List.mem_cons_self (messages.flatMap answers ++ more)
    rw [List.flatMap_cons, List.append_assoc, List.map_cons, injectAll, List.map_cons,
      List.map_cons, hout, hacc, hend, ih fun j hj => h j (List.mem_cons_of_mem _ hj)]

end Terminal

end AgentSupervisor
