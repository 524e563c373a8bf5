import Mathlib.Data.List.Basic
import Mathlib.Data.List.Nodup
import Mathlib.Logic.Function.Basic
import Mathlib.Logic.Relation
import AgentSupervisor.Proofs.Typing

/-!
# Calls that share a terminal

Any number of calls type into one terminal, each under the lock of the terminal. Their steps
interleave: taking the lock, one write, waking up after a refusal or after the pause before the
Enter key, letting go of the lock. The terminal may answer each write as it likes.

* `TypingPhase.Leads`             : what a call does between two of its phases is what `inject` does;
* `SharedTerminal.Step`           : one step of one call;
* `SharedTerminal.Sound`          : the invariant, kept by every step;
* `SharedTerminal.serialised`     : what the terminal took, call by call;
* `SharedTerminal.one_by_one`     : the calls end as if they had been made one after another;
* `SharedTerminal.inject_reaches` : a call alone does in such steps what `inject` does.
-/

namespace AgentSupervisor

open Terminal (enter inject injectAll next taken typeAll typeFrom)

/-- The parts of a message. -/
inductive MessagePart where
  | text
  | enter
  deriving DecidableEq

/-- How far a call is with typing its message. -/
inductive TypingPhase where
  /-- it asks for the lock -/
  | waiting
  /-- so much of a part is left, after so many refusals in a row -/
  | writing (part : MessagePart) (rest : Bytes) (stalls : Nat)
  /-- it sleeps after a refusal -/
  | stalled (part : MessagePart) (rest : Bytes) (stalls : Nat)
  /-- it sleeps before the Enter key -/
  | settling
  /-- nothing is left but to let go of the lock -/
  | finished (outcome : Except InjectError Unit)
  | returned (outcome : Except InjectError Unit)

namespace TypingPhase

/-- The call has the lock. -/
def Holds : TypingPhase → Prop
  | .waiting => False
  | .returned _ => False
  | _ => True

/-- How the call ended, if it has returned. -/
def outcome? : TypingPhase → Option (Except InjectError Unit)
  | .returned outcome => some outcome
  | _ => none

/-- Where an answer leads to while a part is written. -/
def answered (part : MessagePart) : Terminal.Next → TypingPhase
  | .stop e => .finished (.error e)
  | .more rest stalls 0 => .writing part rest stalls
  | .more rest stalls (_ + 1) => .stalled part rest stalls

/-- How the call goes on from here. -/
def resume (settle : Nat) (terminal : Terminal) (text : Bytes) : TypingPhase → Typing
  | .waiting => terminal.inject settle text
  | .writing .text rest stalls | .stalled .text rest stalls =>
    typeFrom settle terminal stalls rest
  | .writing .enter rest stalls | .stalled .enter rest stalls => terminal.typeAll stalls rest
  | .settling => terminal.typeAll 0 [enter]
  | .finished outcome | .returned outcome => { outcome, terminal }

end TypingPhase

/-! ## One call -/

/-- One write: who made it, the answer, and the bytes that the terminal took. -/
structure CallWrite (Call : Type) where
  call : Call
  answer : WriteAnswer
  taken : Bytes

namespace TypingPhase

variable {Call : Type} {text : Bytes} {settle : Nat}

/-- With these writes a call gets from one phase to another, and what is left to do after them is
    what was left before, less what they did. -/
def Leads (settle : Nat) (text : Bytes) (φ : TypingPhase) (ws : List (CallWrite Call))
    (ψ : TypingPhase) : Prop :=
  ∃ slept writes, ∀ more : Terminal,
    φ.resume settle (ws.map CallWrite.answer ++ more) text =
      (ψ.resume settle more text).after (ws.flatMap CallWrite.taken) slept writes

theorem Leads.quiet {φ ψ : TypingPhase} (slept : Nat) (h : ∀ more : Terminal,
    φ.resume settle more text = (ψ.resume settle more text).after [] slept 0) :
    Leads settle text φ ([] : List (CallWrite Call)) ψ :=
  ⟨slept, 0, h⟩

theorem Leads.refl (settle : Nat) (text : Bytes) (φ : TypingPhase) :
    Leads settle text φ ([] : List (CallWrite Call)) φ :=
  .quiet 0 fun _ => (Typing.after_nil _).symm

theorem Leads.trans {φ ψ χ : TypingPhase} {ws vs : List (CallWrite Call)}
    (h₁ : Leads settle text φ ws ψ) (h₂ : Leads settle text ψ vs χ) :
    Leads settle text φ (ws ++ vs) χ := by
  obtain ⟨slept₁, writes₁, h₁⟩ := h₁
  obtain ⟨slept₂, writes₂, h₂⟩ := h₂
  refine ⟨slept₁ + slept₂, writes₁ + writes₂, fun more => ?_⟩
  rw [List.map_append, List.append_assoc, h₁, h₂, Typing.after_after, List.flatMap_append]

/-- One write does what `inject` does with the answer to it. -/
theorem leads_write (settle : Nat) (text : Bytes) (c : Call) (part : MessagePart) {bs : Bytes}
    (hbs : bs ≠ []) (stalls : Nat) (a : WriteAnswer) :
    Leads settle text (.writing part bs stalls) [⟨c, a, taken bs a⟩]
      (.answered part (next bs stalls a)) := by
  have htaken : ([⟨c, a, taken bs a⟩] : List (CallWrite Call)).flatMap CallWrite.taken =
      taken bs a := List.append_nil _
  cases hn : next bs stalls a with
  | stop e =>
    refine ⟨0, 1, fun more => ?_⟩
    rw [htaken, Terminal.taken_of_stop hn]
    cases part with
    | text => exact Terminal.typeFrom_stop settle more hbs hn
    | enter => exact Terminal.typeAll_stop more hbs hn
  | more rest stalls' wait =>
    refine ⟨wait, 1, fun more => ?_⟩
    rw [htaken]
    cases part with
    | text =>
      have hmore := Terminal.typeFrom_more settle more hbs hn
      cases wait <;> exact hmore
    | enter =>
      have hmore := Terminal.typeAll_more more hbs hn
      cases wait <;> exact hmore

/-- What a call has typed is the beginning of its message. -/
theorem Leads.typed_begins {ws : List (CallWrite Call)} {φ : TypingPhase}
    (h : Leads 0 text .waiting ws φ) : ws.flatMap CallWrite.taken <+: text ++ [enter] := by
  obtain ⟨slept, writes, h⟩ := h
  obtain ⟨rest, happ, -⟩ := Terminal.inject_types 0 (ws.map CallWrite.answer ++ []) text
  have hresume := h []
  rw [TypingPhase.resume] at hresume
  rw [hresume] at happ
  rw [← happ]
  exact ⟨(φ.resume 0 [] text).accepted ++ rest, (List.append_assoc ..).symm⟩

theorem Leads.returned {ws : List (CallWrite Call)} {outcome : Except InjectError Unit}
    (h : Leads settle text .waiting ws (.returned outcome)) (more : Terminal) :
    (inject settle (ws.map CallWrite.answer ++ more) text).outcome = outcome ∧
      (inject settle (ws.map CallWrite.answer ++ more) text).accepted =
        ws.flatMap CallWrite.taken ∧
      (inject settle (ws.map CallWrite.answer ++ more) text).terminal = more := by
  obtain ⟨slept, writes, h⟩ := h
  have hresume := h more
  rw [TypingPhase.resume, TypingPhase.resume] at hresume
  rw [hresume]
  exact ⟨rfl, List.append_nil _, rfl⟩

end TypingPhase

/-! ## All calls -/

/-- The calls, the order in which they got the lock, and the writes that they made. -/
structure SharedTerminal (Call : Type) where
  phase : Call → TypingPhase
  order : List Call
  writes : List (CallWrite Call)

namespace SharedTerminal

variable {Call : Type} {text : Call → Bytes} {s s' : SharedTerminal Call} {settle : Nat}

open TypingPhase (Leads leads_write)

/-- No call has the lock yet. -/
def start : SharedTerminal Call := ⟨fun _ => .waiting, [], []⟩

/-- A call gets the lock. -/
def grant (s : SharedTerminal Call) (c : Call) : SharedTerminal Call :=
  { s with order := s.order ++ [c] }

/-- Writes are made. -/
def note (s : SharedTerminal Call) (ws : List (CallWrite Call)) : SharedTerminal Call :=
  { s with writes := s.writes ++ ws }

/-- All that the terminal took. -/
def stream (s : SharedTerminal Call) : Bytes := s.writes.flatMap CallWrite.taken

theorem stream_note (s : SharedTerminal Call) (ws : List (CallWrite Call)) :
    (s.note ws).stream = s.stream ++ ws.flatMap CallWrite.taken := List.flatMap_append

variable [DecidableEq Call]

/-- One call gets further. -/
def move (s : SharedTerminal Call) (c : Call) (φ : TypingPhase) : SharedTerminal Call :=
  { s with phase := Function.update s.phase c φ }

/-- The writes of one call. -/
def own (s : SharedTerminal Call) (c : Call) : List (CallWrite Call) :=
  s.writes.filter fun w => w.call = c

theorem own_note {c : Call} {ψ : TypingPhase} {ws : List (CallWrite Call)}
    (hws : ∀ w ∈ ws, w.call = c) (d : Call) :
    ((s.move c ψ).note ws).own d = s.own d ++ if d = c then ws else [] := by
  show (s.writes ++ ws).filter _ = _
  rw [List.filter_append]
  congr 1
  split
  · rename_i hdc
    rw [List.filter_eq_self]
    intro w hw
    simp [hws w hw, hdc]
  · rename_i hdc
    rw [List.filter_eq_nil_iff]
    intro w hw
    simpa [hws w hw] using Ne.symm hdc

/-- What the terminal took from one call. -/
def typed (s : SharedTerminal Call) (c : Call) : Bytes := (s.own c).flatMap CallWrite.taken

/-- What the terminal answered to one call. -/
def answers (s : SharedTerminal Call) (c : Call) : Terminal := (s.own c).map CallWrite.answer

/-- One step of one call. -/
inductive Step (text : Call → Bytes) : SharedTerminal Call → SharedTerminal Call → Prop where
  | lock {s : SharedTerminal Call} (c : Call) (hc : s.phase c = .waiting)
      (hfree : ∀ d, ¬ (s.phase d).Holds) :
      Step text s ((s.grant c).move c (.writing .text (text c) 0))
  /-- the terminal gives any answer to what is left of the part -/
  | write {s : SharedTerminal Call} (c : Call) (part : MessagePart) (bs : Bytes) (stalls : Nat)
      (a : WriteAnswer) (hc : s.phase c = .writing part bs stalls) (hbs : bs ≠ []) :
      Step text s ((s.move c (.answered part (next bs stalls a))).note [⟨c, a, taken bs a⟩])
  | wake {s : SharedTerminal Call} (c : Call) (part : MessagePart) (bs : Bytes) (stalls : Nat)
      (hc : s.phase c = .stalled part bs stalls) :
      Step text s (s.move c (.writing part bs stalls))
  /-- all of the text is taken -/
  | pause {s : SharedTerminal Call} (c : Call) (stalls : Nat)
      (hc : s.phase c = .writing .text [] stalls) : Step text s (s.move c .settling)
  | press {s : SharedTerminal Call} (c : Call) (hc : s.phase c = .settling) :
      Step text s (s.move c (.writing .enter [enter] 0))
  /-- the Enter key is taken -/
  | finish {s : SharedTerminal Call} (c : Call) (stalls : Nat)
      (hc : s.phase c = .writing .enter [] stalls) :
      Step text s (s.move c (.finished (.ok ())))
  | release {s : SharedTerminal Call} (c : Call) (outcome : Except InjectError Unit)
      (hc : s.phase c = .finished outcome) : Step text s (s.move c (.returned outcome))

/-- Steps lead from one state to another. -/
abbrev Reaches (text : Call → Bytes) : SharedTerminal Call → SharedTerminal Call → Prop :=
  Relation.ReflTransGen (Step text)

/-! ## The invariant -/

/-- A call gets the lock, or the call that has it gets further. -/
def Advances (settle : Nat) (text : Call → Bytes) (s s' : SharedTerminal Call) : Prop :=
  (∃ c, s.phase c = .waiting ∧ (∀ d, ¬ (s.phase d).Holds) ∧
    s' = (s.grant c).move c (.writing .text (text c) 0)) ∨
  ∃ c ψ ws, (s.phase c).Holds ∧ ψ ≠ .waiting ∧ (∀ w ∈ ws, w.call = c) ∧
    Leads settle (text c) (s.phase c) ws ψ ∧
    s' = (s.move c ψ).note ws

theorem Step.advances (h : Step text s s') (settle : Nat) : Advances settle text s s' := by
  have quiet : ∀ {c : Call} {φ : TypingPhase} (ψ : TypingPhase) (slept : Nat), s.phase c = φ →
      φ.Holds → ψ ≠ .waiting → (∀ more, φ.resume settle more (text c) =
        (ψ.resume settle more (text c)).after [] slept 0) → Advances settle text s (s.move c ψ) := by
    rintro c φ ψ slept rfl hc hψ hresume
    exact .inr ⟨c, ψ, [], hc, hψ, by simp, .quiet slept hresume, by rw [note, List.append_nil]⟩
  cases h with
  | lock c hc hfree => exact .inl ⟨c, hc, hfree, rfl⟩
  | write c part bs stalls a hc hbs =>
    refine .inr ⟨c, _, [⟨c, a, taken bs a⟩], ?_, ?_, by simp, ?_, rfl⟩
    · rw [hc]
      trivial
    · cases next bs stalls a with
      | stop e => simp [TypingPhase.answered]
      | more rest stalls' wait => cases wait <;> simp [TypingPhase.answered]
    · rw [hc]
      exact leads_write settle (text c) c part hbs stalls a
  | wake c part bs stalls hc =>
    refine quiet _ 0 hc trivial (by simp) fun _ => ?_
    cases part <;> exact (Typing.after_nil _).symm
  | pause c stalls hc =>
    exact quiet _ settle hc trivial (by simp) fun more => Terminal.typeFrom_nil settle more stalls
  | press c hc =>
    exact quiet _ 0 hc trivial (by simp) fun _ => (Typing.after_nil _).symm
  | finish c stalls hc =>
    refine quiet _ 0 hc trivial (by simp) fun more => ?_
    exact (Terminal.typeAll_nil more stalls).trans (Typing.after_nil _).symm
  | release c outcome hc =>
    exact quiet _ 0 hc trivial (by simp) fun _ => (Typing.after_nil _).symm

/-- The writes stand together call by call, in the order of the lock, and only the last call may
    still have it. -/
structure Sound (settle : Nat) (text : Call → Bytes) (s : SharedTerminal Call) : Prop where
  nodup : s.order.Nodup
  locked : ∀ c, c ∈ s.order ↔ s.phase c ≠ .waiting
  holder : ∀ c, (s.phase c).Holds → s.order.getLast? = some c
  grouped : s.writes = s.order.flatMap s.own
  leads : ∀ c, Leads settle (text c) .waiting (s.own c) (s.phase c)

theorem sound_start (settle : Nat) (text : Call → Bytes) : Sound settle text start :=
  ⟨List.nodup_nil, by simp [start], fun c h => absurd h id, rfl, fun c => .refl ..⟩

theorem Sound.own_eq_nil (h : Sound settle text s) {c : Call} (hc : c ∉ s.order) :
    s.own c = [] := by
  rw [own, List.filter_eq_nil_iff]
  intro w hw hcall
  rw [h.grouped] at hw
  obtain ⟨d, hd, hw⟩ := List.mem_flatMap.mp hw
  have hwd : w.call = d := by simpa using (List.mem_filter.mp hw).2
  have hwc : w.call = c := by simpa using hcall
  rw [← hwd, hwc] at hd
  exact hc hd

theorem Sound.lock (h : Sound settle text s) {c : Call} (hc : s.phase c = .waiting)
    (hfree : ∀ d, ¬ (s.phase d).Holds) :
    Sound settle text ((s.grant c).move c (.writing .text (text c) 0)) := by
  have hnew : c ∉ s.order := by
    rw [h.locked]
    exact fun hne => hne hc
  have hown := h.own_eq_nil hnew
  refine ⟨?_, ?_, ?_, ?_, ?_⟩
  · exact List.nodup_append.mpr ⟨h.nodup, List.nodup_singleton c, by
      intro d hd e he
      rw [List.mem_singleton.mp he]
      rintro rfl
      exact hnew hd⟩
  · intro d
    show d ∈ s.order ++ [c] ↔ Function.update s.phase c _ d ≠ .waiting
    by_cases hdc : d = c
    · subst hdc
      simp
    · rw [Function.update_of_ne hdc, ← h.locked]
      simp [hdc]
  · intro d hd
    have hd : (Function.update s.phase c (.writing .text (text c) 0) d).Holds := hd
    by_cases hdc : d = c
    · rw [hdc]
      exact List.getLast?_concat ..
    · rw [Function.update_of_ne hdc] at hd
      exact absurd hd (hfree d)
  · -- the segment of the new call is empty so far
    show s.writes = (s.order ++ [c]).flatMap s.own
    rw [List.flatMap_append, List.flatMap_singleton, hown, List.append_nil]
    exact h.grouped
  · intro d
    show Leads settle (text d) .waiting (s.own d) (Function.update s.phase c _ d)
    by_cases hdc : d = c
    · subst hdc
      rw [Function.update_self, hown]
      exact .quiet 0 fun _ => (Typing.after_nil _).symm
    · rw [Function.update_of_ne hdc]
      exact h.leads d

theorem Sound.advance (h : Sound settle text s) {c : Call} {ψ : TypingPhase}
    {ws : List (CallWrite Call)} (hc : (s.phase c).Holds) (hψ : ψ ≠ .waiting)
    (hws : ∀ w ∈ ws, w.call = c) (hleads : Leads settle (text c) (s.phase c) ws ψ) :
    Sound settle text ((s.move c ψ).note ws) := by
  have hlast := h.holder c hc
  have hown := own_note (s := s) (ψ := ψ) hws
  refine ⟨h.nodup, ?_, ?_, ?_, ?_⟩
  · intro d
    show d ∈ s.order ↔ Function.update s.phase c ψ d ≠ .waiting
    by_cases hdc : d = c
    · have hmem := (h.locked c).mpr fun hw => by rw [hw] at hc; exact hc
      rw [hdc, Function.update_self]
      exact ⟨fun _ => hψ, fun _ => hmem⟩
    · rw [Function.update_of_ne hdc]
      exact h.locked d
  · intro d hd
    have hd : (Function.update s.phase c ψ d).Holds := hd
    by_cases hdc : d = c
    · rw [hdc]
      exact hlast
    · rw [Function.update_of_ne hdc] at hd
      exact h.holder d hd
  · -- the writes of the last call are at the end, so more of them stay together
    obtain ⟨before, hbefore⟩ := List.getLast?_eq_some_iff.mp hlast
    have hnodup := h.nodup
    have hgrouped := h.grouped
    rw [hbefore] at hnodup hgrouped
    have hnot : c ∉ before := fun hmem =>
      (List.nodup_append.mp hnodup).2.2 c hmem c (List.mem_singleton_self c) rfl
    have hsame : before.flatMap ((s.move c ψ).note ws).own = before.flatMap s.own := by
      refine List.flatMap_congr fun d hd => ?_
      rw [hown, if_neg, List.append_nil]
      rintro rfl
      exact hnot hd
    show s.writes ++ ws = s.order.flatMap _
    rw [hbefore, List.flatMap_append, List.flatMap_singleton, hsame, hown, if_pos rfl,
      ← List.append_assoc]
    congr 1
    rw [hgrouped, List.flatMap_append, List.flatMap_singleton]
  · intro d
    rw [hown]
    show Leads settle (text d) .waiting _ (Function.update s.phase c ψ d)
    by_cases hdc : d = c
    · rw [hdc, if_pos rfl, Function.update_self]
      exact (h.leads c).trans hleads
    · rw [if_neg hdc, List.append_nil, Function.update_of_ne hdc]
      exact h.leads d

theorem Step.sound (h : Sound settle text s) (hs : Step text s s') : Sound settle text s' := by
  rcases hs.advances settle with ⟨c, hc, hfree, rfl⟩ | ⟨c, ψ, ws, hc, hψ, hws, hleads, rfl⟩
  · exact h.lock hc hfree
  · exact h.advance hc hψ hws hleads

theorem Reaches.sound (h : Reaches text start s) (settle : Nat) : Sound settle text s := by
  induction h with
  | refl => exact sound_start settle text
  | tail _ hs ih => exact hs.sound ih

/-! ## What the terminal took -/

theorem Sound.stream_eq (h : Sound settle text s) : s.stream = s.order.flatMap s.typed := by
  rw [stream, h.grouped, List.flatMap_assoc]
  rfl

/-- **What a shared terminal takes is serialised.** It is made up of one segment for each call, in
    the order in which the calls got the lock, and each segment is what `inject` types with the
    answers that the call got: a message with its Enter key when the call succeeded, and a proper
    part of it when the call failed. -/
theorem serialised (h : Reaches text start s) (settle : Nat) :
    s.stream = s.order.flatMap s.typed ∧ s.order.Nodup ∧
    (∀ c, c ∈ s.order ↔ s.phase c ≠ .waiting) ∧
    (∀ c, (s.phase c).Holds → s.order.getLast? = some c) ∧
    (∀ c, s.typed c <+: text c ++ [enter]) ∧
    ∀ c outcome, s.phase c = .returned outcome →
      (inject settle (s.answers c) (text c)).outcome = outcome ∧
      (inject settle (s.answers c) (text c)).accepted = s.typed c ∧
      (outcome = .ok () → s.typed c = text c ++ [enter]) ∧
      ∀ e, outcome = .error e → s.typed c ≠ text c ++ [enter] := by
  have hs := h.sound settle
  refine ⟨hs.stream_eq, hs.nodup, hs.locked, hs.holder, fun c => ((h.sound 0).leads c).typed_begins,
    ?_⟩
  intro c outcome hc
  have hleads := hs.leads c
  rw [hc] at hleads
  obtain ⟨hout, hacc, -⟩ := hleads.returned []
  rw [List.append_nil] at hout hacc
  have htypes := Terminal.inject_types settle (s.answers c) (text c)
  refine ⟨hout, hacc, ?_, ?_⟩
  · intro hok
    exact hacc.symm.trans (htypes.complete (hout.trans hok))
  · intro e he
    have hproper := (htypes.partial (hout.trans he)).2
    rw [show (inject settle (s.answers c) (text c)).accepted = s.typed c from hacc] at hproper
    exact hproper

/-- The first call fails with half of its text typed, and the second one has waited for it. -/
theorem serialised_after_failure :
    ∃ s : SharedTerminal Bool, Reaches (fun c => if c then [104] else [33, 33]) start s ∧
      s.phase false = .returned (.error (.io .device)) ∧ s.phase true = .returned (.ok ()) ∧
      s.order = [false, true] ∧ s.stream = [33, 104, enter] ∧
      s.stream = s.order.flatMap s.typed ∧ s.typed true = [104, enter] ∧
      s.typed false ≠ [33, 33, enter] := by
  have hidle : ∀ s : SharedTerminal Bool, ¬ (s.phase false).Holds → ¬ (s.phase true).Holds →
      ∀ d, ¬ (s.phase d).Holds := by
    rintro s hfalse htrue (_ | _)
    · exact hfalse
    · exact htrue
  generalize htext : (fun c : Bool => if c then [104] else ([33, 33] : Bytes)) = text
  have hfirst : text false = [33, 33] := by rw [← htext]; rfl
  have hsecond : text true = [104] := by rw [← htext]; rfl
  obtain ⟨s, hreaches, hfalse, htrue, horder, htook⟩ : ∃ s, Reaches text start s ∧
      s.phase false = .returned (.error (.io .device)) ∧ s.phase true = .returned (.ok ()) ∧
      s.order = [false, true] ∧ s.stream = [33, 104, enter] := by
    have hreaches : Reaches text start _ :=
      .head (.lock false rfl (hidle _ id id)) <|
      .head (.write false .text [33, 33] 0 (.takes 1) (by rw [hfirst]; rfl) (by simp)) <|
      .head (.write false .text [33] 0 .refuses rfl (by simp)) <|
      .head (.wake false .text [33] 1 rfl) <|
      .head (.write false .text [33] 1 (.fails .device) rfl (by simp)) <|
      .head (.release false _ rfl) <|
      .head (.lock true rfl (hidle _ id id)) <|
      .head (.write true .text [104] 0 (.takes 9) (by rw [hsecond]; rfl) (by simp)) <|
      .head (.pause true 0 rfl) <|
      .head (.press true rfl) <|
      .head (.write true .enter [enter] 0 (.takes 1) rfl (by simp)) <|
      .head (.finish true 0 rfl) <|
      .head (.release true _ rfl) .refl
    exact ⟨_, hreaches, rfl, rfl, rfl, rfl⟩
  obtain ⟨hstream, -, -, -, -, hreturned⟩ := serialised hreaches 0
  have hfailed := (hreturned false _ hfalse).2.2.2 _ rfl
  have htyped := (hreturned true _ htrue).2.2.1 rfl
  rw [hfirst] at hfailed
  rw [hsecond] at htyped
  exact ⟨s, hreaches, hfalse, htrue, horder, htook, hstream, htyped, hfailed⟩

/-- **The calls end as if they had been made one after another** in the order in which they got
    the lock. -/
theorem one_by_one (h : Reaches text start s) (hfree : ∀ c, ¬ (s.phase c).Holds) (settle : Nat)
    (more : Terminal) :
    (injectAll settle (s.order.flatMap s.answers ++ more) (s.order.map text)).map
        (fun t => (some t.outcome, t.accepted)) =
      s.order.map fun c => ((s.phase c).outcome?, s.typed c) := by
  have hs := h.sound settle
  refine Terminal.injectAll_flatMap s.order (fun c hc more => ?_) more
  have hwaiting := (hs.locked c).mp hc
  have hleads := hs.leads c
  have hdone := hfree c
  cases hphase : s.phase c with
  | waiting => exact absurd hphase hwaiting
  | returned outcome =>
    rw [hphase] at hleads
    obtain ⟨hout, hacc, hend⟩ := hleads.returned more
    exact ⟨congrArg some hout, hacc, hend⟩
  | writing _ _ _ | stalled _ _ _ | settling | finished _ =>
    rw [hphase] at hdone
    exact absurd trivial hdone

/-! ## A call alone -/

/-- One call alone gets from one state to another while the terminal takes these bytes. -/
structure Alone (text : Call → Bytes) (c : Call) (s : SharedTerminal Call) (bs : Bytes)
    (s' : SharedTerminal Call) : Prop where
  reaches : Reaches text s s'
  others : ∀ d, d ≠ c → s'.phase d = s.phase d
  stream : s'.stream = s.stream ++ bs

theorem Alone.trans {c : Call} {s₁ s₂ s₃ : SharedTerminal Call} {bs cs : Bytes}
    (h₁ : Alone text c s₁ bs s₂) (h₂ : Alone text c s₂ cs s₃) : Alone text c s₁ (bs ++ cs) s₃ :=
  ⟨h₁.reaches.trans h₂.reaches, fun d hd => (h₂.others d hd).trans (h₁.others d hd), by
    rw [h₂.stream, h₁.stream, List.append_assoc]⟩

theorem Alone.move {c : Call} {φ : TypingPhase} (h : Step text s (s.move c φ)) :
    Alone text c s [] (s.move c φ) :=
  ⟨.single h, fun _ hd => Function.update_of_ne hd .., (List.append_nil _).symm⟩

theorem move_phase (s : SharedTerminal Call) (c : Call) (φ : TypingPhase) :
    (s.move c φ).phase c = φ := Function.update_self ..

/-- One write, and the sleep after a refusal. -/
theorem alone_write (text : Call → Bytes) {c : Call} {part : MessagePart} {bs : Bytes} {stalls : Nat}
    (hc : s.phase c = .writing part bs stalls) (hbs : bs ≠ []) (a : WriteAnswer) :
    ∃ s', Alone text c s (taken bs a) s' ∧
      (∀ rest stalls' wait, next bs stalls a = .more rest stalls' wait →
        s'.phase c = .writing part rest stalls') ∧
      ∀ e, next bs stalls a = .stop e → s'.phase c = .finished (.error e) := by
  generalize hs₁ : (s.move c (.answered part (next bs stalls a))).note [⟨c, a, taken bs a⟩] = s₁
  have hphase : s₁.phase c = .answered part (next bs stalls a) := by
    rw [← hs₁]
    exact Function.update_self ..
  have hwrite : Alone text c s (taken bs a) s₁ := by
    refine ⟨.single (hs₁ ▸ .write c part bs stalls a hc hbs), ?_, ?_⟩
    · intro d hd
      rw [← hs₁]
      exact Function.update_of_ne hd ..
    · rw [← hs₁, stream_note]
      exact congrArg (s.stream ++ ·) (List.append_nil _)
  cases hn : next bs stalls a with
  | stop e =>
    rw [hn] at hphase
    refine ⟨s₁, hwrite, by simp, ?_⟩
    intro e' he
    cases he
    exact hphase
  | more rest stalls' wait =>
    rw [hn] at hphase
    cases wait with
    | zero =>
      refine ⟨s₁, hwrite, ?_, by simp⟩
      intro _ _ _ heq
      cases heq
      exact hphase
    | succ wait =>
      have hwake : Alone text c s₁ [] _ := .move (.wake c part rest stalls' hphase)
      refine ⟨_, List.append_nil (taken bs a) ▸ hwrite.trans hwake, ?_, by simp⟩
      intro _ _ _ heq
      cases heq
      exact move_phase ..

theorem alone_typeAll (text : Call → Bytes) (terminal : Terminal) {c : Call} {part : MessagePart} {rest : Bytes}
    {stalls : Nat} (hc : s.phase c = .writing part rest stalls) :
    ∃ s', Alone text c s (terminal.typeAll stalls rest).accepted s' ∧
      ((terminal.typeAll stalls rest).outcome = .ok () → ∃ k, s'.phase c = .writing part [] k) ∧
      ∀ e, (terminal.typeAll stalls rest).outcome = .error e →
        s'.phase c = .finished (.error e) := by
  induction terminal generalizing s rest stalls with
  | nil =>
    obtain ⟨hok, hacc, -⟩ := Terminal.typeAll_exhausted stalls rest
    rw [hacc, hok]
    by_cases hrest : rest = []
    · subst hrest
      exact ⟨s, ⟨.refl, fun _ _ => rfl, (List.append_nil _).symm⟩, fun _ => ⟨stalls, hc⟩, by simp⟩
    · obtain ⟨b, bs, rfl⟩ := List.exists_cons_of_ne_nil hrest
      obtain ⟨s', halone, hmore, -⟩ := alone_write text hc hrest (.takes (b :: bs).length)
      have htaken : taken (b :: bs) (.takes (b :: bs).length) = b :: bs := List.take_length
      have hdone : next (b :: bs) stalls (.takes (b :: bs).length) = .more [] 0 0 :=
        congrArg (Terminal.Next.more · 0 0) (List.drop_length ..)
      rw [htaken] at halone
      exact ⟨s', halone, fun _ => ⟨0, hmore _ _ _ hdone⟩, by simp⟩
  | cons a terminal ih =>
    by_cases hrest : rest = []
    · subst hrest
      rw [Terminal.typeAll_nil]
      exact ⟨s, ⟨.refl, fun _ _ => rfl, (List.append_nil _).symm⟩, fun _ => ⟨stalls, hc⟩, by simp⟩
    · obtain ⟨s₁, halone, hmore, hstop⟩ := alone_write text hc hrest a
      cases hn : next rest stalls a with
      | stop e =>
        rw [Terminal.typeAll_stop terminal hrest hn]
        rw [Terminal.taken_of_stop hn] at halone
        refine ⟨s₁, halone, by simp, ?_⟩
        intro e' he
        cases he
        exact hstop e hn
      | more rest' stalls' wait =>
        obtain ⟨s₂, halone', hok, herr⟩ := ih (hmore _ _ _ hn)
        rw [Terminal.typeAll_more terminal hrest hn]
        exact ⟨s₂, halone.trans halone', hok, herr⟩

/-- **A call alone does in such steps what `inject` does.** -/
theorem inject_reaches {c : Call} (hc : s.phase c = .waiting) (hfree : ∀ d, ¬ (s.phase d).Holds)
    (settle : Nat) (terminal : Terminal) :
    ∃ s', Alone text c s (terminal.inject settle (text c)).accepted s' ∧
      s'.phase c = .returned (terminal.inject settle (text c)).outcome := by
  have hlock : Alone text c s [] _ :=
    ⟨.single (.lock c hc hfree), fun _ hd => Function.update_of_ne hd .., (List.append_nil _).symm⟩
  have hreturn : ∀ {s' : SharedTerminal Call} {outcome : Except InjectError Unit},
      s'.phase c = .finished outcome → Alone text c s' [] (s'.move c (.returned outcome)) :=
    fun hc => .move (.release c _ hc)
  obtain ⟨s₁, htext, hok, herr⟩ := alone_typeAll text terminal
    (s := (s.grant c).move c (.writing .text (text c) 0)) (move_phase ..)
  rw [Terminal.inject_eq]
  cases ho : (terminal.typeAll 0 (text c)).outcome with
  | error e =>
    rw [Terminal.typeFrom_error ho, ho]
    have hend := (hlock.trans htext).trans (hreturn (herr e ho))
    rw [List.nil_append, List.append_nil] at hend
    exact ⟨_, hend, move_phase ..⟩
  | ok u =>
    rw [Terminal.typeFrom_ok ho]
    obtain ⟨k, hpart⟩ := hok ho
    have hpause : Alone text c s₁ [] _ := .move (.pause c k hpart)
    have hpress : Alone text c _ [] _ := .move (.press c (move_phase s₁ c .settling))
    obtain ⟨s₂, henter, hok', herr'⟩ := alone_typeAll text
      (terminal.typeAll 0 (text c)).terminal
      (move_phase (s₁.move c .settling) c (.writing .enter [enter] 0))
    have hbefore := (hlock.trans htext).trans ((hpause.trans hpress).trans henter)
    rw [List.nil_append, List.nil_append] at hbefore
    cases ho' : ((terminal.typeAll 0 (text c)).terminal.typeAll 0 [enter]).outcome with
    | error e =>
      have hend := hbefore.trans (hreturn (herr' e ho'))
      rw [List.append_nil] at hend
      exact ⟨_, hend, (move_phase ..).trans (congrArg _ ho'.symm)⟩
    | ok u =>
      obtain ⟨k', hpart'⟩ := hok' ho'
      have hfinish : Alone text c s₂ [] _ := .move (.finish c k' hpart')
      have hend := (hbefore.trans hfinish).trans (hreturn (move_phase ..))
      rw [List.append_nil, List.append_nil] at hend
      exact ⟨_, hend, (move_phase ..).trans (congrArg _ ho'.symm)⟩

end SharedTerminal

end AgentSupervisor
