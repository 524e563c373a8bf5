import AgentSupervisor.Proofs.ChildEnvironment
import AgentSupervisor.Proofs.Conversation

/-!
# Conversations with copies of the supervisor

A process that cannot be given its environment, or cannot run its program, remains a copy of the
supervisor, and it has the connection on which it was asked for. One that panics ends the writing
side, for the supervisor too: one more line is carried out, and nothing is heard of it. One that
cannot run its program answers the request with an error, before or after the supervisor does, and
goes on as a supervisor of its own. Of what it does then it is only said that it may take bytes
from the connection and write answers to it. One that has come of another connection may do the
same, because it has all the connections there were when it was started.

* `Step`                     : what may happen;
* `Step.settles`             : the supervisor answers in the order of the lines;
* `Step.accounts`            : every copy does one thing;
* `runs_own`                 : the supervisor writes its answers in that order;
* `runs_muted`               : nothing is written once the writing side has been ended;
* `runs_plain`               : without copies a conversation is a plain one;
* `serve_runs`               : lines that are served make such a run;
* `one_answer_for_each_line` : all of it, for every run;
* `lines_and_answers_differ` : a line without an answer, and one with two.
-/

namespace AgentSupervisor

open Lines (lineFeed)

/-- A conversation, with the copies of the supervisor that take part in it. -/
structure Conversation where
  talk : Talk
  /-- the answers of the supervisor that are still to be written -/
  due : List Response := []
  /-- the copies that have done nothing yet -/
  copies : List Mishap := []
  /-- has a copy that has gone on as a supervisor got at the connection? -/
  astray : Bool := false
  /-- has a copy ended the writing side? -/
  muted : Bool := false

/-- Is a line read? -/
def Talk.Event.isRead : Talk.Event → Bool
  | .read .. => true
  | _ => false

namespace Conversation

open Supervisor (cutName nameless rusty)
open Talk (Answered Ends Next)

/-! ## Steps -/

/-- What happens in a conversation. -/
inductive Event where
  /-- something in which no copy has a part -/
  | plain (e : Talk.Event)
  /-- a line is read and carried out, and copies come of it -/
  | started (before : Scene) (line : Bytes) (answers : List Response) (copies : List Mishap)
      (after : Scene)
  /-- the answer to that line is written -/
  | answered (answers : List Response)
  /-- the answer to that line does not get through, and the connection ends -/
  | lost (answers : List Response)
  /-- a line is read and carried out whose answer does not get through, and the connection ends -/
  | unheard (before : Scene) (line : Bytes) (answers : List Response) (after : Scene)
  /-- a copy that cannot run its program says so -/
  | failed (e : ExecError)
  /-- a copy that panics ends the writing side -/
  | muted
  /-- a copy that has come of another connection gets at this one -/
  | joined
  /-- a copy that has gone on as a supervisor takes bytes and writes answers -/
  | strayed (taken : Bytes) (answers : List Response)

/-- Answers arrive at the client. -/
def write (c : Conversation) (as : List Response) : Conversation :=
  { c with talk := { c.talk with
      client := c.talk.client.arrive (as.flatMap Connection.line) } }

/-- A line has been read and carried out. -/
def carryOut (c : Conversation) (r : Served) (rest : Bytes) : Conversation :=
  { c with talk := { c.talk with scene := (r.supervisor, r.host), unread := rest } }

/-- The connection ends. -/
def shut (c : Conversation) : Conversation := { c with talk := { c.talk with shut := true } }

/-- A step. -/
inductive Step : Conversation → Event → Conversation → Prop where
  | plain (c : Conversation) (e : Talk.Event) (t : Talk) (hs : Talk.Step c.talk e t)
      (hread : e.isRead = true → c.due = [] ∧ c.muted = false) :
      Step c (.plain e) { c with talk := t }
  | start (c : Conversation) (draw : Draw) (line rest : Bytes) (hopen : c.talk.shut = false)
      (hnext : Next c.talk.hungUp c.talk.unread line rest) (hdue : c.due = [])
      (hmuted : c.muted = false) (hcopies : c.talk.copies draw line ≠ []) :
      Step c (.started c.talk.scene line (c.talk.served draw line).responses
          (c.talk.copies draw line)
          ((c.talk.served draw line).supervisor, (c.talk.served draw line).host))
        { c.carryOut (c.talk.served draw line) rest with
          due := (c.talk.served draw line).responses
          copies := c.copies ++ c.talk.copies draw line }
  | answer (c : Conversation) (hdue : c.due ≠ []) (hmuted : c.muted = false) :
      Step c (.answered c.due) { c.write c.due with due := [] }
  | lose (c : Conversation) (hdue : c.due ≠ []) (hmuted : c.muted = true) :
      Step c (.lost c.due) { c.shut with due := [] }
  | unheard (c : Conversation) (draw : Draw) (line rest : Bytes) (hopen : c.talk.shut = false)
      (hnext : Next c.talk.hungUp c.talk.unread line rest) (hdue : c.due = [])
      (hmuted : c.muted = true) :
      Step c (.unheard c.talk.scene line (c.talk.served draw line).responses
          ((c.talk.served draw line).supervisor, (c.talk.served draw line).host))
        (c.carryOut (c.talk.served draw line) rest).shut
  | fail (c : Conversation) (e : ExecError) (before after : List Mishap)
      (hc : c.copies = before ++ .fails e :: after) (hmuted : c.muted = false) :
      Step c (.failed e)
        { c.write (Connection.copyAnswers (.fails e)) with
          copies := before ++ after, astray := true }
  | mute (c : Conversation) (before after : List Mishap)
      (hc : c.copies = before ++ .panics :: after) :
      Step c .muted { c with copies := before ++ after, muted := true }
  | join (c : Conversation) : Step c .joined { c with astray := true }
  /-- what a copy writes does not get through either once the writing side has been ended -/
  | stray (c : Conversation) (taken rest : Bytes) (as : List Response) (hstray : c.astray = true)
      (hunread : c.talk.unread = taken ++ rest) (hmuted : c.muted = true → as = []) :
      Step c (.strayed taken as) ({ c with talk := { c.talk with unread := rest } }.write as)

/-- A connection has been opened. -/
def opened (x : Scene) : Conversation := { talk := Talk.opened x }

namespace Event

/-- What the client sends. -/
def sent : Event → Bytes
  | .plain e => Talk.sent [e]
  | _ => []

/-- The line that is carried out. -/
def lines : Event → List Bytes
  | .plain e => Talk.linesRead [e]
  | .started _ line _ _ _ => [line]
  | .unheard _ line _ _ => [line]
  | _ => []

/-- The answers that the supervisor has to it. -/
def asked : Event → List Response
  | .plain e => Talk.answers [e]
  | .started _ _ answers _ _ => answers
  | .unheard _ _ answers _ => answers
  | _ => []

/-- The answers of the supervisor that are written or lost. -/
def settled : Event → List Response
  | .plain e => Talk.answers [e]
  | .answered answers => answers
  | .lost answers => answers
  | .unheard _ _ answers _ => answers
  | _ => []

/-- Those of them that are written. -/
def own : Event → List Response
  | .plain e => Talk.answers [e]
  | .answered answers => answers
  | _ => []

/-- The answers that are written, by whomever. -/
def written : Event → List Response
  | .plain e => Talk.answers [e]
  | .answered answers => answers
  | .failed e => Connection.copyAnswers (.fails e)
  | .strayed _ answers => answers
  | _ => []

/-- The answers that copies write. -/
def byCopies : Event → List Response
  | .failed e => Connection.copyAnswers (.fails e)
  | .strayed _ answers => answers
  | _ => []

/-- The answer that the client takes. -/
def heard : Event → List (Except ClientError Response)
  | .plain e => Talk.heard [e]
  | _ => []

/-- The copies that come of it. -/
def made : Event → List Mishap
  | .started _ _ _ copies _ => copies
  | _ => []

/-- The copy that does something. -/
def acted : Event → List Mishap
  | .failed e => [.fails e]
  | .muted => [.panics]
  | _ => []

/-- A line has the answer that it has to have, and a copy comes only of a request for a session
    that is answered as one that has worked. -/
def Right : Event → Prop
  | .plain (.read x line as y) => Answered x line as y
  | .started x line as copies y => Answered x line as y ∧
      ∃ w name pid agent mode m, Request.ofLine? line = some (.spawn w) ∧
        as = [.spawned name pid agent mode] ∧ copies = [m] ∧ y.2.mishap? pid = some m
  | .unheard x line as y => Answered x line as y
  | _ => True

theorem written_eq (e : Event) : e.written = e.own ++ e.byCopies := by
  cases e with
  | plain | answered => exact (List.append_nil _).symm
  | _ => rfl

end Event

variable {c u : Conversation} {x : Scene} {e : Event} {es : List Event}

/-! ## One line -/

/-- **Copies come of requests for sessions.** -/
theorem copies_ne {t : Talk} {draw : Draw} {line : Bytes} (hne : t.copies draw line ≠ []) :
    ∃ w name pid agent mode m, Request.ofLine? line = some (.spawn w) ∧
      (t.served draw line).responses = [.spawned name pid agent mode] ∧
      t.copies draw line = [m] ∧ (t.served draw line).host.mishap? pid = some m ∧
      (t.served draw line).closed = false := by
  unfold Talk.copies Talk.served Connection.answerLine at hne ⊢
  cases ht : Utf8.decode? line with
  | none => simp [ht, Connection.mishaps] at hne
  | some cs =>
    have hline : Request.ofLine? line = Request.ofText? cs := by rw [Request.ofLine?, ht]; rfl
    simp only [ht] at hne ⊢
    cases hr : Request.ofText? cs with
    | none => simp [hr, Connection.mishaps, Connection.mishapOf?] at hne
    | some r =>
      -- only a new session is answered with a number, so no other answer has a process to look at
      simp only [hr, Connection.answer] at hne ⊢
      have hcases := t.scene.1.handle_cases draw t.scene.2 r
      generalize t.scene.1.handle draw t.scene.2 r = answered at hne hcases ⊢
      cases hcases with
      | spawned w p k disk pid h' hp hd hs =>
        cases hm : h'.mishap? pid with
        | none =>
          simp [Connection.mishaps, Connection.mishapOf?, Supervisor.spawnedResponse, hm] at hne
        | some m =>
          refine ⟨w, _, pid, _, _, m, hline.trans hr, rfl, ?_, hm, rfl⟩
          simp [Connection.mishaps, Connection.mishapOf?, Supervisor.spawnedResponse, hm]
      | unchanged _ a ha =>
        exfalso
        cases a with
        | spawned => exact ha _ _ _ _ rfl
        | _ => simp [Connection.mishaps, Connection.mishapOf?] at hne
      | _ => simp [Connection.mishaps, Connection.mishapOf?, Supervisor.statusAnswer] at hne

theorem Step.right (hs : Step c e u) : e.Right := by
  cases hs with
  | plain e t hs =>
    cases hs with
    | read draw line => exact (c.talk.served_answered draw line).1
    | _ => trivial
  | start draw line rest hopen hnext hdue hmuted hcopies =>
    obtain ⟨w, name, pid, agent, mode, m, hline, has, hm, hmishap, -⟩ := copies_ne hcopies
    exact ⟨(c.talk.served_answered draw line).1, w, name, pid, agent, mode, m, hline, has, hm,
      hmishap⟩
  | unheard draw line => exact (c.talk.served_answered draw line).1
  | _ => trivial

/-! ## Runs -/

theorem runs_right (hr : Runs Step c es u) : ∀ e ∈ es, e.Right := by
  induction hr with
  | nil => exact fun _ he => by cases he
  | cons hs _ ih => exact List.forall_mem_cons.mpr ⟨hs.right, ih⟩

/-- **The supervisor answers in the order of the lines**: what is due is the answer to the last
    one. -/
theorem Step.settles (hs : Step c e u) : c.due ++ e.asked = e.settled ++ u.due := by
  cases hs with
  | plain e t hs hread =>
    cases hs with
    | read =>
      rw [(hread rfl).1]
      exact (List.append_nil _).symm
    | _ => exact List.append_nil _
  | start _ _ _ _ _ hdue =>
    rw [hdue]
    rfl
  | unheard _ _ _ _ _ hdue =>
    show c.due ++ _ = _ ++ c.due
    rw [hdue]
    exact (List.append_nil _).symm
  | answer | lose => rfl
  | fail | mute | join | stray => exact List.append_nil _

theorem runs_settled (hr : Runs Step c es u) :
    c.due ++ es.flatMap Event.asked = es.flatMap Event.settled ++ u.due := by
  induction hr with
  | nil c => exact List.append_nil _
  | cons hs _ ih =>
    rw [List.flatMap_cons, List.flatMap_cons, ← List.append_assoc, hs.settles, List.append_assoc,
      ih, List.append_assoc]

/-- **Every copy does one thing.** -/
theorem Step.accounts (hs : Step c e u) : (c.copies ++ e.made).Perm (e.acted ++ u.copies) := by
  cases hs with
  | start => exact .refl _
  | fail _ before after hc | mute before after hc =>
    rw [hc]
    exact (List.append_nil _).symm ▸ List.perm_middle
  | plain | answer | lose | unheard | join | stray => exact .of_eq (List.append_nil _)

theorem runs_copies (hr : Runs Step c es u) :
    (c.copies ++ es.flatMap Event.made).Perm (es.flatMap Event.acted ++ u.copies) := by
  induction hr with
  | nil c => exact .of_eq (List.append_nil _)
  | @cons c c' u e es hs _ ih =>
    rw [List.flatMap_cons, List.flatMap_cons, List.append_assoc, ← List.append_assoc c.copies]
    refine (hs.accounts.append_right _).trans ?_
    rw [List.append_assoc]
    exact ih.append_left _

/-- A step takes the first answer that has been written, or none. -/
theorem Step.takes (hs : Step c e u) {before : List Response}
    (hc : c.talk.client = ⟨before.flatMap Connection.line⟩) :
    ∃ later : List Response, u.talk.client = ⟨later.flatMap Connection.line⟩ ∧
      (before ++ e.written).map .ok = e.heard ++ later.map .ok := by
  have hwrites (as : List Response) : c.talk.client.arrive (as.flatMap Connection.line) =
      ⟨(before ++ as).flatMap Connection.line⟩ := by
    rw [hc, Client.arrive, List.flatMap_append]
  cases hs with
  | plain e t hs => exact hs.takes hc
  | answer => exact ⟨before ++ c.due, hwrites _, rfl⟩
  | fail e => exact ⟨before ++ Connection.copyAnswers (.fails e), hwrites _, rfl⟩
  | stray _ _ as => exact ⟨before ++ as, hwrites _, rfl⟩
  | start | lose | unheard | mute | join =>
    exact ⟨before, hc, by simp [Event.written, Event.heard]⟩

/-- **The answers taken** are the first answers that were written, by whomever. -/
theorem runs_heard (hr : Runs Step c es u) (before : List Response)
    (hc : c.talk.client = ⟨before.flatMap Connection.line⟩) :
    ∃ later : List Response, u.talk.client = ⟨later.flatMap Connection.line⟩ ∧
      (before ++ es.flatMap Event.written).map .ok =
        es.flatMap Event.heard ++ later.map .ok := by
  induction hr generalizing before with
  | nil => exact ⟨before, hc, by simp⟩
  | cons hs _ ih =>
    obtain ⟨next, hnext, hfirst⟩ := hs.takes hc
    obtain ⟨later, hu, hrest⟩ := ih next hnext
    refine ⟨later, hu, ?_⟩
    rw [List.flatMap_cons, List.flatMap_cons, ← List.append_assoc, List.map_append, hfirst,
      List.append_assoc, ← List.map_append, hrest, List.append_assoc]

/-- Nothing is carried out once the connection has ended. -/
theorem runs_shut (hr : Runs Step c es u) (hc : c.talk.shut = true) :
    es.flatMap Event.lines = [] ∧ u.talk.shut = true := by
  induction hr with
  | nil => exact ⟨rfl, hc⟩
  | cons hs _ ih =>
    cases hs with
    | plain e t hs =>
      cases hs with
      | read _ _ _ hopen => rw [hc] at hopen; cases hopen
      | _ => exact ih hc
    | start _ _ _ hopen | unheard _ _ _ hopen => rw [hc] at hopen; cases hopen
    | lose => exact ih rfl
    | answer | fail | mute | join | stray => exact ih hc

theorem flatMap_written (es : List Event) :
    (es.flatMap Event.written).Perm (es.flatMap Event.own ++ es.flatMap Event.byCopies) ∧
      (es.flatMap Event.own).Sublist (es.flatMap Event.written) := by
  induction es with
  | nil => exact ⟨.refl _, .refl _⟩
  | cons e es ih =>
    rw [List.flatMap_cons, List.flatMap_cons, List.flatMap_cons, e.written_eq]
    refine ⟨?_, ((List.sublist_append_left _ _).append ih.2)⟩
    rw [List.append_assoc, List.append_assoc]
    refine List.Perm.append_left _ ((ih.1.append_left _).trans ?_)
    rw [← List.append_assoc, ← List.append_assoc]
    exact List.perm_append_comm.append_right _

theorem own_of_written (hnone : es.flatMap Event.written = []) : es.flatMap Event.own = [] :=
  List.sublist_nil.mp (hnone ▸ (flatMap_written es).2)

/-- Only a copy ends the writing side. -/
theorem Step.unmuted (hs : Step c e u) (hc : c.muted = false) (he : e ≠ .muted) :
    u.muted = false := by
  cases hs with
  | mute => exact absurd rfl he
  | _ => exact hc

/-- **Nothing is written once the writing side has been ended**, and at most one line is carried
    out. -/
theorem runs_muted (hr : Runs Step c es u) (hc : c.muted = true) :
    es.flatMap Event.written = [] ∧ (es.flatMap Event.lines).length ≤ 1 := by
  induction hr with
  | nil => exact ⟨rfl, Nat.zero_le 1⟩
  | cons hs hr ih =>
    cases hs with
    | plain e t hs hread =>
      cases hs with
      | read => rw [(hread rfl).2] at hc; cases hc
      | _ => exact ih hc
    | start _ _ _ _ _ _ hmuted | answer _ hmuted | fail _ _ _ _ hmuted =>
      rw [hc] at hmuted
      cases hmuted
    | unheard =>
      refine ⟨(ih hc).1, ?_⟩
      rw [List.flatMap_cons, (runs_shut hr rfl).1]
      exact Nat.le_refl 1
    | lose | join => exact ih hc
    | mute => exact ih rfl
    | stray taken rest as hstray hunread hmuted =>
      obtain rfl := hmuted hc
      exact ih hc

/-- As long as the writing side is open the supervisor loses nothing. -/
theorem Step.own (hs : Step c e u) (hc : c.muted = false) : e.own = e.settled := by
  cases hs with
  | lose _ hmuted | unheard _ _ _ _ _ _ hmuted =>
    rw [hc] at hmuted
    cases hmuted
  | _ => rfl

/-- **The supervisor writes its answers in order**, up to where a copy ends the writing side. -/
theorem runs_own (hr : Runs Step c es u) :
    es.flatMap Event.own <+: es.flatMap Event.settled ∧
      (c.muted = false → .muted ∉ es → es.flatMap Event.own = es.flatMap Event.settled) := by
  induction hr with
  | nil => exact ⟨List.prefix_refl _, fun _ _ => rfl⟩
  | @cons c v u e es hs hr ih =>
    cases hc : c.muted with
    | true =>
      have hnone := (runs_muted (.cons hs hr) hc).1
      rw [own_of_written hnone]
      exact ⟨List.nil_prefix, fun h => by cases h⟩
    | false =>
      rw [List.flatMap_cons, List.flatMap_cons, hs.own hc]
      refine ⟨(List.prefix_append_right_inj _).mpr ih.1, fun _ hnone => ?_⟩
      rw [ih.2 (hs.unmuted hc fun he => hnone (he ▸ List.mem_cons_self))
        fun hmem => hnone (List.mem_cons_of_mem _ hmem)]

/-- A connection ends with a line that ends it, or once the writing side has been ended. -/
theorem runs_over (hr : Runs Step c es u) (hc : c.muted = false) (hopen : c.talk.shut = false)
    (hu : u.talk.shut = true) : (∃ line ∈ es.flatMap Event.lines, Ends line) ∨ .muted ∈ es := by
  induction hr with
  | nil => rw [hopen] at hu; cases hu
  | @cons c v u e es hs _ ih =>
    have hlater (hc : v.muted = false) (hv : v.talk.shut = false) :
        (∃ line ∈ (e :: es).flatMap Event.lines, Ends line) ∨ .muted ∈ e :: es :=
      (ih hc hv hu).imp
        (fun ⟨line, hl, hends⟩ => ⟨line, List.mem_append_right _ hl, hends⟩)
        (List.mem_cons_of_mem _)
    cases hs with
    | plain e t hs =>
      cases hs with
      | read draw line =>
        cases hclosed : (c.talk.served draw line).closed with
        | true =>
          exact .inl ⟨line, List.mem_cons_self, (c.talk.served_answered draw line).2.mp hclosed⟩
        | false => exact hlater hc hclosed
      | _ => exact hlater hc hopen
    | lose _ hmuted | unheard _ _ _ _ _ _ hmuted =>
      rw [hc] at hmuted
      cases hmuted
    | mute => exact .inr List.mem_cons_self
    | start | answer | fail | join | stray => exact hlater hc hopen

/-- Nothing is carried out after a line that ends the connection. -/
theorem Step.ends (hs : Step c e u) (hends : ∃ line ∈ e.lines, Ends line) :
    u.talk.shut = true := by
  obtain ⟨line, hline, hends⟩ := hends
  cases hs with
  | plain e t hs =>
    cases hs with
    | read draw l rest =>
      obtain rfl := List.mem_singleton.mp hline
      exact (c.talk.served_answered draw line).2.mpr hends
    | _ => cases hline
  | start draw l rest hopen hnext hdue hmuted hcopies =>
    obtain rfl := List.mem_singleton.mp hline
    obtain ⟨w, -, -, -, -, -, -, -, -, -, hclosed⟩ := copies_ne hcopies
    rw [(c.talk.served_answered draw line).2.mpr hends] at hclosed
    cases hclosed
  | unheard => rfl
  | _ => cases hline

theorem runs_ends (hr : Runs Step c es u) {before after : List Event}
    (hes : es = before ++ e :: after) (hends : ∃ line ∈ e.lines, Ends line) :
    after.flatMap Event.lines = [] := by
  subst hes
  obtain ⟨y, -, hafter⟩ := hr.append_inv
  cases hafter with
  | cons hs hr => exact (runs_shut hr (hs.ends hends)).1

theorem runs_silent (hr : Runs Step c es u) {before after : List Event}
    (hes : es = before ++ .muted :: after) :
    after.flatMap Event.written = [] ∧ (after.flatMap Event.lines).length ≤ 1 := by
  subst hes
  obtain ⟨y, -, hafter⟩ := hr.append_inv
  cases hafter with
  | cons hs hr =>
    cases hs with
    | mute => exact runs_muted hr rfl

theorem runs_hungUp (hr : Runs Step c es u) (hc : c.talk.hungUp = true) :
    es.flatMap Event.sent = [] ∧ u.talk.hungUp = true := by
  induction hr with
  | nil => exact ⟨rfl, hc⟩
  | cons hs _ ih =>
    cases hs with
    | plain e t hs =>
      cases hs with
      | send bs hopen => rw [hc] at hopen; cases hopen
      | hangUp => exact ih rfl
      | _ => exact ih hc
    | _ => exact ih hc

/-- **The lines carried out** are the first lines of what was sent, as long as no copy takes
    any. -/
theorem runs_lines (hr : Runs Step c es u) (hnone : ∀ taken as, Event.strayed taken as ∉ es) :
    ∃ later, Lines.Cut (c.talk.unread ++ es.flatMap Event.sent)
        (es.flatMap Event.lines ++ later) ∧ Lines.Cut u.talk.unread later := by
  induction hr with
  | nil c =>
    obtain ⟨ls, hls⟩ := Lines.exists_cut c.talk.unread
    exact ⟨ls, by simpa using hls, hls⟩
  | cons hs hr ih =>
    obtain ⟨later, hcut, hlater⟩ :=
      ih fun taken as hmem => hnone taken as (List.mem_cons_of_mem _ hmem)
    refine ⟨later, ?_, hlater⟩
    have hover := fun hh => (runs_hungUp hr hh).1
    rw [List.flatMap_cons, List.flatMap_cons, List.append_assoc]
    cases hs with
    | plain e t hs => exact hs.lines hcut hover
    | start draw line rest hopen hnext | unheard draw line rest hopen hnext =>
      exact hnext.cut hcut hover
    | stray taken _ as => exact absurd List.mem_cons_self (hnone taken as)
    | answer | lose | fail | mute | join => exact hcut

/-- **Without copies** a conversation is a plain one. -/
theorem runs_plain (hr : Runs Step c es u) (hc : c = { talk := c.talk })
    (hnone : es.flatMap Event.made = []) (hjoined : .joined ∉ es) :
    ∃ plain, es = plain.map .plain ∧ Runs Talk.Step c.talk plain u.talk := by
  -- nothing is due, no copy is there and the writing side is open, so only plain steps are left
  induction hr with
  | nil c => exact ⟨[], rfl, .nil _⟩
  | @cons c c' u e es hs _ ih =>
    obtain ⟨hmade, hrest⟩ := List.append_eq_nil_iff.mp (List.flatMap_cons.symm.trans hnone)
    have hlater := fun hmem => hjoined (List.mem_cons_of_mem _ hmem)
    cases hs with
    | plain e t hs =>
      obtain ⟨plain, rfl, hr⟩ := ih (by rw [hc]) hrest hlater
      exact ⟨e :: plain, rfl, .cons hs hr⟩
    | start _ _ _ _ _ _ _ hcopies => exact absurd hmade hcopies
    | answer hdue | lose hdue => exact absurd (by rw [hc]) hdue
    | unheard _ _ _ _ _ _ hmuted =>
      rw [hc] at hmuted
      cases hmuted
    | fail _ before after hcopies | mute before after hcopies =>
      rw [hc] at hcopies
      simp at hcopies
    | join => exact absurd List.mem_cons_self hjoined
    | stray _ _ _ hstray =>
      rw [hc] at hstray
      cases hstray

/-! ## Connections -/

/-- Lines that stand at the beginning of what has not been read, and what follows them. -/
def Reads (hungUp : Bool) : Bytes → List Bytes → Bytes → Prop
  | unread, [], rest => unread = rest
  | unread, line :: lines, rest =>
    ∃ later, Next hungUp unread line later ∧ Reads hungUp later lines rest

theorem reads_cutLines (hungUp : Bool) (bs : Bytes) :
    Reads hungUp bs (Connection.cutLines (Lines.split bs)).1
        (Connection.cutLines (Lines.split bs)).2 ∧
      lineFeed ∉ (Connection.cutLines (Lines.split bs)).2 := by
  induction hn : bs.length using Nat.strongRecOn generalizing bs with
  | ind n ih =>
    subst hn
    rcases Lines.exists_first_line bs with hfree | ⟨body, rest, hfree, rfl⟩
    · rw [Lines.split, Lines.splitFrom_of_not_mem hfree]
      cases bs with
      | nil => exact ⟨rfl, hfree⟩
      | cons b bs =>
        simp only [Connection.cutLines, List.reverse_nil, List.nil_append, List.isEmpty_cons,
          Bool.false_eq_true, if_false, List.append_nil]
        exact ⟨rfl, hfree⟩
    · rw [Lines.split_append_line body rest hfree]
      obtain ⟨hreads, hlast⟩ := ih rest.length (by simp; omega) rest rfl
      exact ⟨⟨rest, .whole hungUp body rest hfree, hreads⟩, hlast⟩

/-- A run in which these bytes are sent and these answers written, and what it ends in. Nothing
    else happens to the scene but that the supervisor looks at its processes. -/
structure Does (c : Conversation) (bs : Bytes) (r : Served) (u : Conversation) : Prop where
  run : ∃ es, Runs Step c es u ∧ es.flatMap Event.sent = bs ∧
    es.flatMap Event.written = r.responses ∧
    ∀ x y, .plain (.world x y) ∈ es → y = x.1.watch x.2
  scene : u.talk.scene = (r.supervisor, r.host)
  shut : u.talk.shut = r.closed
  due : u.due = []
  muted : u.muted = r.muted

theorem Does.trans {r r' : Served} {v : Conversation} {bs bs' : Bytes} (h : Does c bs r u)
    (h' : Does u bs' r' v) :
    Does c (bs ++ bs') { r' with responses := r.responses ++ r'.responses } v := by
  obtain ⟨es, hr, hsent, hwritten, hworld⟩ := h.run
  obtain ⟨es', hr', hsent', hwritten', hworld'⟩ := h'.run
  refine ⟨⟨es ++ es', hr.append hr', ?_, ?_, fun x y hm => ?_⟩, h'.scene, h'.shut, h'.due,
    h'.muted⟩
  · rw [List.flatMap_append, hsent, hsent']
  · rw [List.flatMap_append, hwritten, hwritten']
  · exact (List.mem_append.mp hm).elim (hworld x y) (hworld' x y)

/-- How one line is served while the writing side is open. -/
def lineServed (x : Scene) (draw : Draw) (line : Bytes) : Served :=
  let first := Connection.answerLine x.1 draw x.2 line
  let copies := Connection.mishaps first
  let next := first.supervisor.watch first.host
  { first with
    responses := first.responses ++ copies.flatMap Connection.copyAnswers
    supervisor := next.1, host := next.2, muted := copies.contains .panics }

theorem answerLine_muted (s : Supervisor) (draw : Draw) (h : Host) (line : Bytes) :
    (Connection.answerLine s draw h line).muted = false := by
  unfold Connection.answerLine
  split
  · rfl
  · split <;> rfl

/-- A line after which lines are served. -/
theorem serve_cons (x : Scene) (draw : Draw) (line : Bytes) (lines : List (Bytes × Draw)) :
    Connection.serve x.1 x.2 false ((line, draw) :: lines) =
      let one := lineServed x draw line
      if one.closed then one
      else
        let rest := Connection.serve one.supervisor one.host one.muted lines
        { rest with responses := one.responses ++ rest.responses } := by
  rw [Connection.serve]
  simp only [lineServed, Bool.false_eq_true, if_false]
  by_cases hclosed : (Connection.answerLine x.1 draw x.2 line).closed = true
  · have halone : Connection.mishaps (Connection.answerLine x.1 draw x.2 line) = [] := by
      by_contra hne
      obtain ⟨-, -, -, -, -, -, -, -, -, -, hopen⟩ := copies_ne (t := Talk.opened x) hne
      cases hopen.symm.trans hclosed
    simp [hclosed, halone, answerLine_muted]
  · simp [hclosed]

/-- The supervisor looks at its processes. -/
def watch (c : Conversation) : Conversation :=
  { c with talk := { c.talk with scene := c.talk.scene.1.watch c.talk.scene.2 } }

theorem watch_step (c : Conversation) :
    Step c (.plain (.world c.talk.scene (c.talk.scene.1.watch c.talk.scene.2))) c.watch :=
  .plain c _ _ (.world c.talk _) fun h => by cases h

/-- A copy does its one thing. -/
theorem copy_acts {m : Mishap} {before after : List Mishap}
    (hc : c.copies = before ++ m :: after) (hmuted : c.muted = false) :
    ∃ e v, Step c e v ∧ e.sent = [] ∧ e.written = Connection.copyAnswers m ∧
      (∀ x y, .plain (.world x y) ≠ e) ∧ v.due = c.due ∧ v.muted = [m].contains .panics ∧
      v.talk = { c.talk with client := v.talk.client } := by
  cases m with
  | panics =>
    exact ⟨_, _, .mute c before after hc, rfl, rfl, fun _ _ h => (by cases h), rfl, rfl, rfl⟩
  | fails e =>
    exact ⟨_, _, .fail c e before after hc hmuted, rfl, rfl, fun _ _ h => (by cases h), rfl, hmuted,
      rfl⟩

/-- A line of which no copy comes is read and answered. -/
theorem plain_runs {draw : Draw} {line rest : Bytes} (hopen : c.talk.shut = false)
    (hdue : c.due = []) (hmuted : c.muted = false)
    (hnext : Next c.talk.hungUp c.talk.unread line rest) (halone : c.talk.copies draw line = []) :
    ∃ u, Does c [] (lineServed c.talk.scene draw line) u ∧ u.talk.unread = rest ∧
      u.talk.hungUp = c.talk.hungUp := by
  have hread := Step.plain c _ _ (.read c.talk draw line rest hopen hnext halone)
    fun _ => ⟨hdue, hmuted⟩
  unfold Talk.copies Talk.served at halone
  refine ⟨_, ⟨⟨_, .cons hread (.cons (watch_step _) (.nil _)), rfl, ?_, ?_⟩, rfl, rfl, hdue, ?_⟩,
    rfl, rfl⟩
  · simp [Event.written, Talk.answers, Talk.served, lineServed, halone]
  · simp [Talk.goOn]
  · simp [lineServed, halone, watch, hmuted]

/-- A line of which a copy comes is read and answered, and the copy does its one thing. -/
theorem started_runs {draw : Draw} {line rest : Bytes} (hopen : c.talk.shut = false)
    (hdue : c.due = []) (hmuted : c.muted = false)
    (hnext : Next c.talk.hungUp c.talk.unread line rest) (hcopies : c.talk.copies draw line ≠ []) :
    ∃ u, Does c [] (lineServed c.talk.scene draw line) u ∧ u.talk.unread = rest ∧
      u.talk.hungUp = c.talk.hungUp := by
  have hstart := Step.start c draw line rest hopen hnext hdue hmuted hcopies
  obtain ⟨w, name, pid, agent, mode, m, -, has, hm, -, hclosed⟩ := copies_ne hcopies
  rw [hm, has] at hstart
  have hanswer := Step.answer { c.carryOut (c.talk.served draw line) rest with
        due := [.spawned name pid agent mode], copies := c.copies ++ [m] }
    (List.cons_ne_nil _ _) hmuted
  unfold Talk.copies at hm
  unfold Talk.served at hm has
  obtain ⟨e, v, hact, hsent, hwritten, hworld, hvdue, hvmuted, hvtalk⟩ :=
    copy_acts (c := { (c.carryOut (c.talk.served draw line) rest).write
      [.spawned name pid agent mode] with due := [], copies := c.copies ++ [m] }) rfl hmuted
  -- the line, its answer, the copy, and the look at the processes
  refine ⟨v.watch, ⟨⟨_, .cons hstart (.cons hanswer (.cons hact (.cons (watch_step v) (.nil _)))),
    ?_, ?_, ?_⟩, ?_, ?_, hvdue, ?_⟩, ?_, ?_⟩
  · show [] ++ (e.sent ++ []) = []
    rw [hsent]
    rfl
  · show [.spawned name pid agent mode] ++ (e.written ++ []) = _
    rw [hwritten, lineServed, hm, has]
    rfl
  · intro x y hmem
    simp only [List.mem_cons, reduceCtorEq, false_or, List.not_mem_nil, or_false] at hmem
    obtain hmem | hmem := hmem
    · exact absurd hmem (hworld x y)
    · cases hmem
      rfl
  · rw [watch, hvtalk]
    rfl
  · rw [watch, hvtalk]
    exact hopen.trans hclosed.symm
  · rw [lineServed, hm]
    exact hvmuted
  · rw [watch, hvtalk]
    rfl
  · rw [watch, hvtalk]
    rfl

/-- **A line that is served** while the writing side is open makes a run. -/
theorem line_runs (draw : Draw) {line rest : Bytes} (hopen : c.talk.shut = false)
    (hdue : c.due = []) (hmuted : c.muted = false)
    (hnext : Next c.talk.hungUp c.talk.unread line rest) :
    ∃ u, Does c [] (lineServed c.talk.scene draw line) u ∧ u.talk.unread = rest ∧
      u.talk.hungUp = c.talk.hungUp := by
  by_cases halone : c.talk.copies draw line = []
  · exact plain_runs hopen hdue hmuted hnext halone
  · exact started_runs hopen hdue hmuted hnext halone

/-- A line that is served once the writing side has been ended is the last one. -/
theorem unheard_runs (draw : Draw) {line rest : Bytes} (hopen : c.talk.shut = false)
    (hdue : c.due = []) (hmuted : c.muted = true)
    (hnext : Next c.talk.hungUp c.talk.unread line rest) (lines : List (Bytes × Draw)) :
    ∃ u, Does c [] (Connection.serve c.talk.scene.1 c.talk.scene.2 true ((line, draw) :: lines))
      u := by
  have hread := Step.unheard c draw line rest hopen hnext hdue hmuted
  refine ⟨_, ⟨_, .cons hread (.cons (watch_step _) (.nil _)), rfl, rfl, ?_⟩, rfl, rfl, hdue,
    hmuted⟩
  simp [shut, carryOut]

/-- **Lines that are served** make a run. -/
theorem serve_runs (lines : List (Bytes × Draw)) {rest : Bytes} (hopen : c.talk.shut = false)
    (hdue : c.due = []) (hl : Reads c.talk.hungUp c.talk.unread (lines.map Prod.fst) rest) :
    ∃ u, Does c [] (Connection.serve c.talk.scene.1 c.talk.scene.2 c.muted lines) u ∧
      (u.talk.shut = false → u.talk.unread = rest) := by
  induction lines generalizing c with
  | nil => exact ⟨c, ⟨⟨[], .nil c, rfl, rfl, by simp⟩, rfl, hopen, hdue, rfl⟩, fun _ => hl⟩
  | cons l lines ih =>
    obtain ⟨line, draw⟩ := l
    obtain ⟨later, hnext, hl⟩ := hl
    cases hmuted : c.muted with
    | true =>
      obtain ⟨u, hdoes⟩ := unheard_runs draw hopen hdue hmuted hnext lines
      refine ⟨u, hdoes, fun h => ?_⟩
      rw [hdoes.shut] at h
      cases h
    | false =>
      obtain ⟨v, hone, hunread, hhungUp⟩ := line_runs draw hopen hdue hmuted hnext
      rw [serve_cons]
      simp only
      cases hclosed : (lineServed c.talk.scene draw line).closed with
      | true =>
        rw [if_pos rfl]
        refine ⟨v, hone, fun h => ?_⟩
        rw [hone.shut, hclosed] at h
        cases h
      | false =>
        rw [if_neg Bool.false_ne_true]
        obtain ⟨u, hdoes, hrest⟩ :=
          ih (hone.shut.trans hclosed) hone.due (hunread.symm ▸ hhungUp.symm ▸ hl)
        rw [hone.scene, hone.muted] at hdoes
        exact ⟨u, hone.trans hdoes, hrest⟩

/-- A connection with its client, in a scene. -/
def ofConnection (c : Connection) (x : Scene) (client : Client) : Conversation :=
  { talk := { scene := x, unread := c.unread, shut := c.closed, client }, muted := c.muted }

/-- **Bytes that arrive** are a run in which they are sent and all complete lines are read. -/
theorem receive_runs (c : Connection) (client : Client) (s : Supervisor) (draw : Nat → Draw)
    (h : Host) (bs : Bytes) :
    ∃ u, Does (ofConnection c (s, h) client) bs (c.receive s draw h bs).1 u ∧
      u.talk.shut = (c.receive s draw h bs).2.closed ∧
      u.muted = (c.receive s draw h bs).2.muted ∧
      (u.talk.shut = false →
        u.talk.unread = (c.receive s draw h bs).2.unread ∧ lineFeed ∉ u.talk.unread) := by
  have hsend := Step.plain (ofConnection c (s, h) client) _ _ (.send _ bs rfl) fun h => by cases h
  have hsent : Does (ofConnection c (s, h) client) bs
      { supervisor := s, host := h, closed := c.closed, muted := c.muted } _ :=
    ⟨⟨_, .cons hsend (.nil _), by simp [Event.sent, Talk.sent], rfl, by simp⟩, rfl, rfl, rfl, rfl⟩
  unfold Connection.receive
  cases hc : c.closed with
  | true =>
    rw [if_pos rfl]
    rw [hc] at hsent
    exact ⟨_, hsent, hsent.shut.trans hc.symm, rfl, fun ho => by cases hsent.shut.symm.trans ho⟩
  | false =>
    rw [if_neg Bool.false_ne_true]
    obtain ⟨hreads, hlast⟩ := reads_cutLines false (c.unread ++ bs)
    generalize Connection.cutLines (Lines.split (c.unread ++ bs)) = cut at hreads hlast ⊢
    obtain ⟨lines, unread⟩ := cut
    simp only at hreads hlast ⊢
    have hfst : (lines.zipIdx.map fun l => (l.1, draw l.2)).map Prod.fst = lines := by
      rw [List.map_map]
      exact List.zipIdx_map_fst 0 lines
    obtain ⟨u, hdoes, hrest⟩ :=
      serve_runs (c := { ofConnection c (s, h) client with
          talk := (ofConnection c (s, h) client).talk.send bs })
        (lines.zipIdx.map fun l => (l.1, draw l.2)) hc rfl (hfst.symm ▸ hreads)
    have hall := hsent.trans hdoes
    rw [List.append_nil] at hall
    exact ⟨u, hall, hdoes.shut, hdoes.muted, fun ho => ⟨hrest ho, hrest ho ▸ hlast⟩⟩

/-- The client ends its side. -/
def hangUp (c : Conversation) : Conversation :=
  { c with talk := { c.talk with hungUp := true } }

/-- **A client that hangs up** makes a run in which what it sent after the last line feed is read
    as a line. -/
theorem hangUp_runs (c : Connection) (client : Client) (s : Supervisor) (draw : Draw) (h : Host)
    (hfree : lineFeed ∉ c.unread) :
    ∃ u, Does (ofConnection c (s, h) client) []
        { c.hangUp s draw h with closed := u.talk.shut } u ∧
      u.talk.hungUp = true ∧ (u.talk.shut = false → u.talk.unread = []) := by
  have hhang : Step (ofConnection c (s, h) client) (.plain .hungUp)
      (ofConnection c (s, h) client).hangUp := .plain _ _ _ (.hangUp _) fun h => by cases h
  have hhung : Does (ofConnection c (s, h) client) []
      { supervisor := s, host := h, closed := c.closed, muted := c.muted }
      (ofConnection c (s, h) client).hangUp :=
    ⟨⟨_, .cons hhang (.nil _), rfl, rfl, by simp⟩, rfl, rfl, rfl, rfl⟩
  unfold Connection.hangUp
  by_cases hidle : (c.closed || c.unread.isEmpty) = true
  · rw [if_pos hidle]
    refine ⟨(ofConnection c (s, h) client).hangUp, hhung, rfl, fun ho => ?_⟩
    have hopen : c.closed = false := ho
    rw [hopen] at hidle
    exact List.isEmpty_iff.mp hidle
  · rw [if_neg hidle]
    obtain ⟨hopen, hne⟩ : c.closed = false ∧ c.unread ≠ [] := by simpa using hidle
    obtain ⟨u, hdoes, hrest⟩ :=
      serve_runs (c := (ofConnection c (s, h) client).hangUp) [(c.unread, draw)] hopen rfl
        ⟨[], .last _ hne hfree, rfl⟩
    obtain ⟨es, hr, -⟩ := hdoes.run
    refine ⟨u, ?_, (runs_hungUp hr rfl).2, hrest⟩
    rw [hdoes.shut]
    exact hhung.trans hdoes

/-! ## Every conversation -/

/-- What is said on a connection. -/
structure Accounted (es : List Event) (u : Conversation) : Prop where
  /-- each line has the answer that it has to have -/
  right : ∀ e ∈ es, e.Right
  /-- and none is carried out after one that ends the connection -/
  ends : ∀ before e after, es = before ++ e :: after → (∃ line ∈ e.lines, Ends line) →
    after.flatMap Event.lines = []
  /-- the supervisor answers in the order of the lines -/
  settled : es.flatMap Event.asked = es.flatMap Event.settled ++ u.due
  /-- and writes its answers, up to where a copy ends the writing side -/
  own : es.flatMap Event.own <+: es.flatMap Event.settled ∧
    (.muted ∉ es → es.flatMap Event.own = es.flatMap Event.settled)
  /-- what is written is that and what copies write -/
  shared : (es.flatMap Event.written).Perm (es.flatMap Event.own ++ es.flatMap Event.byCopies) ∧
    (es.flatMap Event.own).Sublist (es.flatMap Event.written)
  /-- each copy does one thing -/
  copies : (es.flatMap Event.made).Perm (es.flatMap Event.acted ++ u.copies)
  /-- nothing is written after the writing side has been ended, and at most one line is carried
      out -/
  silent : ∀ before after, es = before ++ .muted :: after →
    after.flatMap Event.written = [] ∧ (after.flatMap Event.lines).length ≤ 1
  /-- each answer is written as one line -/
  written : Lines.Cut ((es.flatMap Event.written).flatMap Connection.line)
    ((es.flatMap Event.written).map Connection.line)
  /-- the client takes the answers in the order in which they are written, and all of them in the
      end -/
  heard : es.flatMap Event.heard <+: (es.flatMap Event.written).map .ok ∧
    (u.talk.Idle → es.flatMap Event.heard = (es.flatMap Event.written).map .ok)
  /-- unless a copy takes bytes, the lines carried out are the first lines of what was sent, and
      in the end all of them, or the connection has ended -/
  lines : (∀ taken as, .strayed taken as ∉ es) →
    (∃ later, Lines.Cut (es.flatMap Event.sent) (es.flatMap Event.lines ++ later) ∧
      Lines.Cut u.talk.unread later) ∧
    (u.talk.Idle → (∃ line ∈ es.flatMap Event.lines, Ends line) ∨ .muted ∈ es ∨
      lineFeed ∉ u.talk.unread ∧
        (u.talk.hungUp = true → Lines.Cut (es.flatMap Event.sent) (es.flatMap Event.lines)))
  /-- without copies, every line has its one answer -/
  orderly : es.flatMap Event.made = [] → .joined ∉ es →
    ∃ plain, es = plain.map .plain ∧ Talk.Orderly plain u.talk

theorem accounted_of_runs (hr : Runs Step (opened x) es u) : Accounted es u := by
  obtain ⟨untaken, hclient, hheard⟩ := runs_heard hr [] rfl
  refine ⟨runs_right hr, fun _ _ _ => runs_ends hr, runs_settled hr,
    ⟨(runs_own hr).1, (runs_own hr).2 rfl⟩, flatMap_written es, runs_copies hr,
    fun _ _ => runs_silent hr, Wire.cut_responses _,
    ⟨⟨untaken.map .ok, hheard.symm⟩, fun hidle => ?_⟩, fun hnone => ?_, fun hmade hjoined => ?_⟩
  · rw [hidle.client hclient] at hheard
    simpa using hheard.symm
  · obtain ⟨later, hcut, hlater⟩ := runs_lines hr hnone
    refine ⟨⟨later, hcut, hlater⟩, fun hidle => ?_⟩
    rcases hidle.rest with ho | ⟨hfree, hall⟩
    · exact (runs_over hr rfl rfl ho).imp_right .inl
    · refine .inr (.inr ⟨hfree, fun hh => ?_⟩)
      rw [hall hh] at hlater
      rw [Lines.eq_nil_of_cut hlater, List.append_nil] at hcut
      exact hcut
  · obtain ⟨plain, hes, hplain⟩ := runs_plain hr rfl hmade hjoined
    exact ⟨plain, hes, Talk.runs_orderly hplain⟩

/-- **Every line has one answer from the supervisor**, in the order of the lines, however the bytes
    arrive and whatever happens between two lines; and of the copies that come of the lines, each
    does its one thing. This is so in every run; and what `receive` and `hangUp` do makes such
    runs. -/
theorem one_answer_for_each_line (c : Connection) (client : Client) (s : Supervisor) (h : Host) :
    (∀ es u, Runs Step (opened (s, h)) es u → Accounted es u) ∧
    (∀ draw bs,
      ∃ u, Does (ofConnection c (s, h) client) bs (c.receive s draw h bs).1 u ∧
        u.talk.shut = (c.receive s draw h bs).2.closed ∧
        u.muted = (c.receive s draw h bs).2.muted ∧
        (u.talk.shut = false →
          u.talk.unread = (c.receive s draw h bs).2.unread ∧ lineFeed ∉ u.talk.unread)) ∧
    ∀ draw, lineFeed ∉ c.unread →
      ∃ u, Does (ofConnection c (s, h) client) []
          { c.hangUp s draw h with closed := u.talk.shut } u ∧
        u.talk.hungUp = true ∧ (u.talk.shut = false → u.talk.unread = []) :=
  ⟨fun _ _ => accounted_of_runs, fun draw => receive_runs c client s draw h,
    fun draw => hangUp_runs c client s draw h⟩

/-- A line that spells no request, and then three requests. Nothing is read after the second of
    them, which asks for a shutdown. -/
def spoken : Bytes :=
  Utf8.encode "{}\n" ++ Client.line .ping ++ Client.line .shutdown ++ Client.line .ping

theorem one_answer_for_each_line_until_shutdown :
    ∃ es u, Runs Step (opened (Scene.bare, { storage := { now := 0 } })) es u ∧ Accounted es u ∧
      es.flatMap Event.sent = spoken ∧
      es.flatMap Event.written = [.error "invalid request", .pong, .ok] ∧
      u.talk.shut = true := by
  obtain ⟨hruns, hreceive, -⟩ :=
    one_answer_for_each_line {} {} Scene.bare { storage := { now := 0 } }
  obtain ⟨u, ⟨⟨es, hr, hsent, hwritten, -⟩, -⟩, hover, -⟩ :=
    hreceive (fun _ => ⟨⟨"m"⟩, fun _ => ""⟩) spoken
  have hserved : (Connection.receive {} Scene.bare (fun _ => ⟨⟨"m"⟩, fun _ => ""⟩)
      { storage := { now := 0 } } spoken).1.responses = [.error "invalid request", .pong, .ok] ∧
      (Connection.receive {} Scene.bare (fun _ => ⟨⟨"m"⟩, fun _ => ""⟩)
        { storage := { now := 0 } } spoken).2.closed = true := by decide +kernel
  exact ⟨es, u, hr, hruns es u hr, hsent, hwritten.trans hserved.1, hover.trans hserved.2⟩

/-- A request for a session, and then another request. -/
def asking (w : SpawnRequest) : Bytes := Client.line (.spawn w) ++ Client.line .ping

/-- **Lines and answers differ**: where the process cannot be given its environment, the second
    line is carried out and has no answer, and the connection ends; where there is no shell, the
    first line has two. -/
theorem lines_and_answers_differ :
    ((Connection.receive {} Scene.bare (fun _ => rusty) { storage := { now := 0 } }
        (asking cutName)).1.responses =
        [.spawned "a\x00b" 4000 "claude" .terminal] ∧
      (Connection.receive {} Scene.bare (fun _ => rusty) { storage := { now := 0 } }
        (asking cutName)).2.closed = true) ∧
    (Connection.receive {} Scene.bare (fun _ => rusty)
      { storage := { now := 0 }, programs := [] } (asking nameless)).1.responses =
        [.spawned "rusty-nail" 4000 "claude" .terminal,
          .error "spawn failed: failed to exec: ENOENT: No such file or directory", .pong] := by
  decide +kernel

end Conversation

end AgentSupervisor
