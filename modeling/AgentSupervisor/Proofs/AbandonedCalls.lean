import AgentSupervisor.Proofs.Conversation

/-!
# Calls that are abandoned

A client makes one call after another over one connection. A call sends the line of its request and
takes the next line that comes back. Its caller may stop waiting for it at any time; what the call
has read by then is lost, and the rest of its answer still comes. The other side answers every line
with one line, in order, and the answers arrive when they like, in pieces of any size.

* `Paired.completes`  : the line that a call completes with;
* `Step.paired`       : what has been read, is lost and is still to come are the answers;
* `converse_runs`     : `Client.converse` is a run in which no call is abandoned;
* `completed_call`    : which call is answered when a call completes, for every run;
* `late_answer_taken` : a call completes with the answer to another one.
-/

namespace AgentSupervisor

open Lines (lineFeed)

/-! ## Steps -/

/-- A client, its connection, and what answers at the other end. -/
structure Dialogue where
  client : Client := {}
  /-- what the call that is waiting has read of its line; nothing if no call is waiting -/
  held : Option Bytes := none
  /-- the requests that have been sent and not answered -/
  asked : List Request := []
  /-- what has been written in answer and has not arrived -/
  coming : Bytes := []

namespace Dialogue

/-- What happens. -/
inductive Event where
  /-- a call sends the line of its request -/
  | called (r : Request)
  /-- the oldest request is answered with a line -/
  | answered (r : Request) (reply : Bytes)
  | arrived (bs : Bytes)
  /-- the call that is waiting reads what has arrived of its line -/
  | read (part : Bytes)
  /-- the call is over and gives what its line says -/
  | completed (answer : Except ClientError Response)
  /-- the caller stops waiting; this is what the call had read -/
  | abandoned (held : Bytes)

variable {d d' : Dialogue} {e : Event} {es : List Event}
  {answer : Except ClientError Response}

/-- A call waits for its answer. -/
def call (d : Dialogue) (r : Request) : Dialogue :=
  { d with held := some [], asked := d.asked ++ [r] }

/-- The oldest request is answered, and these are left. -/
def reply (d : Dialogue) (line : Bytes) (rest : List Request) : Dialogue :=
  { d with asked := rest, coming := d.coming ++ line }

/-- Some of what was coming has arrived, and this is left. -/
def arrive (d : Dialogue) (bs rest : Bytes) : Dialogue :=
  { d with client := d.client.arrive bs, coming := rest }

/-- The call that is waiting has read a part of its line. -/
def take (d : Dialogue) (held part rest : Bytes) : Dialogue :=
  { d with client := ⟨rest⟩, held := some (held ++ part) }

/-- What a call takes that has read a part of its line. -/
def taken (d : Dialogue) (held : Bytes) : Except ClientError Response × Client :=
  Client.receive ⟨held ++ d.client.unread⟩

/-- A call is over, and this is what it leaves of its connection. -/
def leave (d : Dialogue) (client : Client) : Dialogue :=
  { d with client := client, held := none }

/-- A step. -/
inductive Step : Dialogue → Event → Dialogue → Prop where
  | call (d : Dialogue) (r : Request) (hfree : d.held = none) : Step d (.called r) (d.call r)
  | answer (d : Dialogue) (r : Request) (rest : List Request) (body : Bytes)
      (hasked : d.asked = r :: rest) (hbody : lineFeed ∉ body) :
      Step d (.answered r (body ++ [lineFeed])) (d.reply (body ++ [lineFeed]) rest)
  | arrive (d : Dialogue) (bs rest : Bytes) (hcoming : d.coming = bs ++ rest) :
      Step d (.arrived bs) (d.arrive bs rest)
  | read (d : Dialogue) (held part rest : Bytes) (hheld : d.held = some held)
      (hunread : d.client.unread = part ++ rest) (hfree : lineFeed ∉ part) :
      Step d (.read part) (d.take held part rest)
  /-- a call is over once its line is there -/
  | complete (d : Dialogue) (held : Bytes) (hheld : d.held = some held)
      (hline : lineFeed ∈ d.client.unread) :
      Step d (.completed (d.taken held).1) (d.leave (d.taken held).2)
  | abandon (d : Dialogue) (held : Bytes) (hheld : d.held = some held) :
      Step d (.abandoned held) (d.leave d.client)

/-! ## What has happened -/

/-- What has happened on a connection. -/
structure Past where
  /-- the requests of the calls -/
  calls : List Request := []
  /-- the requests that were answered, with their answers -/
  exchanges : List (Request × Bytes) := []
  /-- how many calls have completed -/
  completed : Nat := 0
  /-- how many were abandoned -/
  abandoned : Nat := 0
  /-- what abandoned calls have read and lost since the last call completed -/
  lost : Bytes := []

/-- One more event. -/
def Past.after (p : Past) : Event → Past
  | .called r => { p with calls := p.calls ++ [r] }
  | .answered r line => { p with exchanges := p.exchanges ++ [(r, line)] }
  | .arrived _ => p
  | .read _ => p
  | .completed _ => { p with completed := p.completed + 1, lost := [] }
  | .abandoned held => { p with abandoned := p.abandoned + 1, lost := p.lost ++ held }

/-- What has happened after some events. -/
def past (es : List Event) : Past := es.foldl Past.after {}

/-- The answers that no call has completed with, each behind its request. -/
def Past.due (p : Past) : List (Request × Bytes) := p.exchanges.drop p.completed

variable {p : Past}

/-- What has been read, is lost and is still to come, after what has happened. -/
structure Paired (d : Dialogue) (p : Past) : Prop where
  /-- requests are answered in order -/
  order : p.calls = p.exchanges.map Prod.fst ++ d.asked
  /-- every answer is a line -/
  lines : ∀ x ∈ p.exchanges, ∃ body, lineFeed ∉ body ∧ x.2 = body ++ [lineFeed]
  /-- a call has completed, was abandoned or is waiting -/
  count : p.calls.length = p.completed + p.abandoned + d.held.toList.length
  behind : p.completed ≤ p.exchanges.length
  /-- what is lost, read, there and coming is what the answers are that are due -/
  stream : p.lost ++ d.held.getD [] ++ d.client.unread ++ d.coming = p.due.flatMap Prod.snd
  /-- what was lost or read has no end of a line in it -/
  unended : lineFeed ∉ p.lost ++ d.held.getD []
  /-- only calls that were abandoned lose anything -/
  whole : p.abandoned = 0 → p.lost = []

theorem paired_nil : Paired {} {} where
  order := rfl
  lines := fun _ h => by cases h
  count := rfl
  behind := Nat.le_refl _
  stream := rfl
  unended := List.not_mem_nil
  whole := fun _ => rfl

/-! ## The line that a call completes with -/

/-- Two streams that are the same have the same first line. -/
theorem first_line_inj {a b r r' : Bytes} (ha : lineFeed ∉ a) (hb : lineFeed ∉ b)
    (heq : a ++ lineFeed :: r = b ++ lineFeed :: r') : a = b ∧ r = r' := by
  have htake := congrArg Client.takeLine heq
  rw [Client.takeLine_line ha, Client.takeLine_line hb] at htake
  obtain ⟨hline, hrest⟩ := Prod.mk.inj htake
  exact ⟨List.append_cancel_right hline, hrest⟩

/-- **The line that a call completes with** is what is left of the first answer that is due. -/
theorem Paired.completes (hp : Paired d p) {held : Bytes} (hheld : d.held = some held)
    (hline : lineFeed ∈ d.client.unread) :
    ∃ r line part rest,
      p.due = (r, line) :: rest ∧ p.lost ++ part = line ∧ part ≠ [] ∧
      (d.taken held).1 = Client.ofLine part ∧
      (d.taken held).2.unread ++ d.coming = rest.flatMap Prod.snd := by
  have hstream := hp.stream
  have hfree := hp.unended
  rw [hheld, Option.getD_some] at hstream hfree
  obtain ⟨begun, unread, hbegun, hunread⟩ : ∃ begun unread, lineFeed ∉ begun ∧
      d.client.unread = begun ++ lineFeed :: unread := by
    rcases Lines.exists_first_line d.client.unread with h | h
    · exact absurd hline h
    · exact h
  have hpart : lineFeed ∉ held ++ begun :=
    List.not_mem_append (fun h => hfree (List.mem_append_right _ h)) hbegun
  have htaken : d.taken held = (Client.ofLine (held ++ begun ++ [lineFeed]), ⟨unread⟩) := by
    rw [taken, Client.receive, hunread, ← List.append_assoc, Client.takeLine_line hpart]
  cases hdue : p.due with
  | nil =>
    rw [hdue, hunread] at hstream
    simp at hstream
  | cons x rest =>
    obtain ⟨body, hbody, hx⟩ := hp.lines x (List.mem_of_mem_drop (hdue ▸ List.mem_cons_self))
    have hsame : (p.lost ++ held ++ begun) ++ lineFeed :: (unread ++ d.coming) =
        body ++ lineFeed :: rest.flatMap Prod.snd := by
      rw [hdue, List.flatMap_cons, hx, hunread] at hstream
      simpa using hstream
    obtain ⟨hhead, htail⟩ := first_line_inj (List.not_mem_append hfree hbegun) hbody hsame
    refine ⟨x.1, x.2, held ++ begun ++ [lineFeed], rest, rfl, ?_, by simp, by rw [htaken], ?_⟩
    · rw [hx, ← hhead]
      simp
    · rw [htaken]
      exact htail

/-! ## What a step keeps -/

/-- **What has been read, is lost and is still to come** are the answers, after one more step. -/
theorem Step.paired (hs : Step d e d') (hp : Paired d p) : Paired d' (p.after e) := by
  cases hs with
  | call r hnone =>
    obtain ⟨horder, hlines, hcount, hbehind, hstream, hfree, hwhole⟩ := hp
    rw [hnone] at hcount hstream hfree
    refine ⟨?_, hlines, ?_, hbehind, hstream, hfree, hwhole⟩
    · show p.calls ++ [r] = p.exchanges.map Prod.fst ++ (d.asked ++ [r])
      rw [horder, List.append_assoc]
    · show (p.calls ++ [r]).length = _
      rw [List.length_append, hcount]
      rfl
  | answer r rest body hasked hbody =>
    -- the new answer comes behind those that are due
    obtain ⟨horder, hlines, hcount, hbehind, hstream, hfree, hwhole⟩ := hp
    refine ⟨?_, ?_, hcount, ?_, ?_, hfree, hwhole⟩
    · show p.calls = (p.exchanges ++ [(r, body ++ [lineFeed])]).map Prod.fst ++ rest
      simp [horder, hasked]
    · intro x hx
      rcases List.mem_append.mp hx with hx | hx
      · exact hlines x hx
      · exact ⟨body, hbody, by rw [List.mem_singleton.mp hx]⟩
    · show p.completed ≤ (p.exchanges ++ [(r, body ++ [lineFeed])]).length
      rw [List.length_append]
      omega
    · show _ ++ (d.coming ++ (body ++ [lineFeed])) =
        ((p.exchanges ++ [(r, body ++ [lineFeed])]).drop p.completed).flatMap Prod.snd
      rw [List.drop_append_of_le_length hbehind, List.flatMap_append, ← List.append_assoc]
      exact congrArg₂ _ hstream (List.append_nil _).symm
  | arrive bs rest hcoming =>
    obtain ⟨horder, hlines, hcount, hbehind, hstream, hfree, hwhole⟩ := hp
    refine ⟨horder, hlines, hcount, hbehind, ?_, hfree, hwhole⟩
    show p.lost ++ d.held.getD [] ++ (d.client.unread ++ bs) ++ rest = p.due.flatMap Prod.snd
    rw [← hstream, hcoming]
    simp
  | read held part rest hheld hunread hpart =>
    obtain ⟨horder, hlines, hcount, hbehind, hstream, hfree, hwhole⟩ := hp
    rw [hheld] at hcount hstream hfree
    refine ⟨horder, hlines, hcount, hbehind, ?_, ?_, hwhole⟩
    · rw [Past.after, ← hstream, hunread, Dialogue.take]
      simp
    · show lineFeed ∉ p.lost ++ (held ++ part)
      rw [← List.append_assoc]
      exact List.not_mem_append hfree hpart
  | complete held hheld hline =>
    -- the stream is at the beginning of an answer again, so nothing of the next one is lost
    obtain ⟨r, line, part, rest, hdue, -, -, -, hrest⟩ := hp.completes hheld hline
    obtain ⟨horder, hlines, hcount, hbehind, hstream, hfree, hwhole⟩ := hp
    rw [hheld] at hcount
    refine ⟨horder, hlines, ?_, ?_, ?_, List.not_mem_nil, fun _ => rfl⟩
    · show p.calls.length = p.completed + 1 + p.abandoned + 0
      rw [hcount, Option.toList_some, List.length_singleton]
      omega
    · show p.completed + 1 ≤ p.exchanges.length
      have hlength := congrArg List.length hdue
      rw [Past.due, List.length_drop, List.length_cons] at hlength
      omega
    · have hdrop : p.exchanges.drop (p.completed + 1) = rest := by
        rw [← List.drop_drop, ← Past.due, hdue, List.drop_one, List.tail_cons]
      show (d.taken held).2.unread ++ d.coming =
        (p.exchanges.drop (p.completed + 1)).flatMap Prod.snd
      rw [hdrop, hrest]
  | abandon held hheld =>
    -- what the call has read is lost, and its answer is still due
    obtain ⟨horder, hlines, hcount, hbehind, hstream, hfree, hwhole⟩ := hp
    rw [hheld] at hcount hstream hfree
    refine ⟨horder, hlines, ?_, hbehind, ?_, ?_, fun hzero => absurd hzero (Nat.succ_ne_zero _)⟩
    · show p.calls.length = p.completed + (p.abandoned + 1) + 0
      rw [hcount, Option.toList_some, List.length_singleton]
      omega
    · show p.lost ++ held ++ [] ++ d.client.unread ++ d.coming = p.due.flatMap Prod.snd
      rw [List.append_nil]
      exact hstream
    · show lineFeed ∉ p.lost ++ held ++ []
      rw [List.append_nil]
      exact hfree

theorem runs_paired (hr : Runs Step d es d') (hp : Paired d p) :
    Paired d' (es.foldl Past.after p) := by
  induction hr generalizing p with
  | nil => exact hp
  | cons hs _ ih => exact ih (hs.paired hp)

/-! ## Calls that are not abandoned -/

/-- The answers that calls completed with. -/
def answers (es : List Event) : List (Except ClientError Response) :=
  es.filterMap fun | .completed answer => some answer | _ => none

/-- A call that is answered at once and completes. -/
theorem runs_exchange (c : Client) (r : Request) {body : Bytes} (hbody : lineFeed ∉ body)
    (hr : Runs Step { client := (c.arrive (body ++ [lineFeed])).receive.2 } es d) :
    Runs Step { client := c }
      (.called r :: .answered r (body ++ [lineFeed]) :: .arrived (body ++ [lineFeed]) ::
        .completed (c.arrive (body ++ [lineFeed])).receive.1 :: es) d := by
  have harrived : lineFeed ∈ (c.arrive (body ++ [lineFeed])).unread := by simp [Client.arrive]
  exact .cons (.call _ r rfl) (.cons (.answer _ r [] body rfl hbody)
    (.cons (.arrive _ _ [] (List.append_nil _).symm) (.cons (.complete _ [] rfl harrived) hr)))

/-- **`Client.converse` is a run in which no call is abandoned**, if every answer is a line. -/
theorem converse_runs (c : Client) (xs : List (Request × Bytes))
    (hlines : ∀ x ∈ xs, ∃ body, lineFeed ∉ body ∧ x.2 = body ++ [lineFeed]) :
    ∃ es c', Runs Step { client := c } es { client := c' } ∧
      answers es = c.converse (xs.map Prod.snd) ∧
      ∀ p : Past, (es.foldl Past.after p).exchanges = p.exchanges ++ xs ∧
        (es.foldl Past.after p).abandoned = p.abandoned := by
  induction xs generalizing c with
  | nil => exact ⟨[], c, .nil _, rfl, fun p => ⟨(List.append_nil _).symm, rfl⟩⟩
  | cons x xs ih =>
    obtain ⟨r, line⟩ := x
    obtain ⟨body, hbody, rfl⟩ := hlines _ List.mem_cons_self
    obtain ⟨es, c', hr, hanswers, hpast⟩ :=
      ih (c.arrive (body ++ [lineFeed])).receive.2 fun y hy => hlines y (List.mem_cons_of_mem _ hy)
    refine ⟨_, c', runs_exchange c r hbody hr, congrArg (_ :: ·) hanswers, fun p => ?_⟩
    obtain ⟨hexchanges, habandoned⟩ := hpast ((((p.after (.called r)).after
      (.answered r (body ++ [lineFeed]))).after (.arrived (body ++ [lineFeed]))).after
        (.completed (c.arrive (body ++ [lineFeed])).receive.1))
    refine ⟨?_, habandoned⟩
    refine hexchanges.trans ?_
    show p.exchanges ++ [(r, body ++ [lineFeed])] ++ xs = _
    rw [List.append_assoc, List.singleton_append]

/-! ## All of it -/

/-- **Which call is answered when a call completes**, for every run. The call that completes is the
    last one. The line that it completes with answers the request of the call that stands as many
    calls before it as were abandoned so far, and lacks what abandoned calls have read of that line.
    So it answers its own request, in full, exactly as long as no call was abandoned. -/
theorem completed_call {before after : List Event} {answer : Except ClientError Response}
    (hr : Runs Step {} (before ++ .completed answer :: after) d) :
    ∃ (earlier later : List Request) (request : Request) (line part : Bytes),
      (past before).calls = earlier ++ request :: later ∧
      earlier.length = (past before).completed ∧ later.length = (past before).abandoned ∧
      (past before).exchanges.map Prod.fst <+: (past before).calls ∧
      (past before).exchanges[earlier.length]? = some (request, line) ∧
      (past before).lost ++ part = line ∧ part ≠ [] ∧ answer = Client.ofLine part ∧
      ((past before).abandoned = 0 → (past before).lost = []) ∧
      ∀ r, line = Connection.line r → (past before).lost = [] → answer = .ok r := by
  obtain ⟨d₁, hbefore, hafter⟩ := hr.append_inv
  have hp : Paired d₁ (past before) := runs_paired hbefore paired_nil
  cases hafter with
  | cons hs _ =>
    cases hs with
    | complete held hheld harrived =>
      obtain ⟨request, line, part, rest, hdue, hlost, hne, hanswer, -⟩ :=
        hp.completes hheld harrived
      obtain ⟨done, hdone, hlength⟩ : ∃ done, (past before).exchanges =
          done ++ (request, line) :: rest ∧ done.length = (past before).completed := by
        refine ⟨(past before).exchanges.take (past before).completed, ?_,
          List.length_take_of_le hp.behind⟩
        rw [← hdue, Past.due, List.take_append_drop]
      have hcalls : (past before).calls =
          done.map Prod.fst ++ request :: (rest.map Prod.fst ++ d₁.asked) := by
        rw [hp.order, hdone, List.map_append, List.append_assoc]
        rfl
      have hearlier : (done.map Prod.fst).length = (past before).completed := by
        rw [List.length_map, hlength]
      have hlater : (rest.map Prod.fst ++ d₁.asked).length = (past before).abandoned := by
        have hcount := hp.count
        rw [hcalls, hheld, List.length_append, hearlier, List.length_cons, Option.toList_some,
          List.length_singleton] at hcount
        omega
      refine ⟨_, _, request, line, part, hcalls, hearlier, hlater, ⟨d₁.asked, hp.order.symm⟩, ?_,
        hlost, hne, hanswer, hp.whole, fun r hline hnothing => ?_⟩
      · rw [List.length_map, hdone]
        simp
      · rw [hnothing, List.nil_append, hline] at hlost
        rw [hanswer, hlost, Wire.ofLine_line]

/-- A call completes with the line of a response. -/
theorem Step.complete_line {held rest : Bytes} (r : Response) (hheld : d.held = some held)
    (hfree : lineFeed ∉ held) (hline : held ++ d.client.unread = Connection.line r ++ rest) :
    Step d (.completed (.ok r)) (d.leave ⟨rest⟩) := by
  have htaken : d.taken held = (.ok r, ⟨rest⟩) := by
    have htake : Client.takeLine (Connection.line r ++ rest) = (Connection.line r, rest) := by
      rw [Connection.line, List.append_assoc]
      exact Client.takeLine_line (Wire.lineFeed_not_mem r.text_line.1) rest
    rw [taken, Client.receive, hline, htake]
    simp only [Wire.ofLine_line]
  have harrived : lineFeed ∈ d.client.unread := by
    have hmem : lineFeed ∈ held ++ d.client.unread := by
      rw [hline]
      simp [Connection.line]
    exact (List.mem_append.mp hmem).resolve_left hfree
  have hstep := Step.complete d held hheld harrived
  rwa [htaken] at hstep

/-- The caller stops waiting for an answer, a part of which has been read. -/
def halfRead : List Event :=
  [.called .ping, .answered .ping (32 :: Connection.line .pong), .arrived [32], .read [32],
    .abandoned [32], .called .list, .arrived (Connection.line .pong)]

theorem completed_call_half_read :
    ∃ d, Runs Step {} (halfRead ++ [.completed (.ok .pong)]) d ∧
      ∃ (earlier later : List Request) (request : Request) (line part : Bytes),
        [.ping, .list] = earlier ++ request :: later ∧ earlier.length = 0 ∧ later.length = 1 ∧
        [32] ++ part = line ∧ .ok .pong = Client.ofLine part := by
  have hbody : lineFeed ∉ 32 :: Utf8.encodeChars Response.pong.text :=
    List.not_mem_cons_of_ne_of_not_mem (by decide) (Wire.lineFeed_not_mem Response.pong.text_line.1)
  have hrun : Runs Step {} (halfRead ++ [.completed (.ok .pong)]) _ :=
    .cons (.call _ _ rfl) (.cons (.answer _ _ [] _ rfl hbody) (.cons (.arrive _ [32] _ rfl)
      (.cons (.read _ [] [32] [] rfl rfl (by decide)) (.cons (.abandon _ _ rfl)
        (.cons (.call _ _ rfl) (.cons (.arrive _ _ [] (List.append_nil _).symm)
          (.cons (.complete_line .pong rfl List.not_mem_nil (List.append_nil _).symm)
            (.nil _))))))))
  obtain ⟨earlier, later, request, line, part, hcalls, hearlier, hlater, -, -, hlost, -, hanswer, -⟩ :=
    completed_call hrun
  exact ⟨_, hrun, earlier, later, request, line, part, hcalls, hearlier, hlater, hlost, hanswer⟩

/-- The caller stops waiting for an answer, which arrives whole while the next call waits. -/
def lateAnswer : List Event :=
  [.called .list, .abandoned [], .called .ping, .answered .list (Connection.line (.sessions [])),
    .answered .ping (Connection.line .pong), .arrived (Connection.line (.sessions []))]

/-- **A call completes with the answer to another one**: a ping gives what the call before it, which
    was abandoned, had asked for. -/
theorem late_answer_taken :
    (∃ d, Runs Step {} (lateAnswer ++ [.completed (.ok (.sessions []))]) d) ∧
      (past lateAnswer).calls = [.list, .ping] ∧
      (past lateAnswer).exchanges =
        [(.list, Connection.line (.sessions [])), (.ping, Connection.line .pong)] ∧
      Client.ofLine (Connection.line .pong) ≠ .ok (.sessions []) := by
  have hbody (r : Response) : lineFeed ∉ Utf8.encodeChars r.text :=
    Wire.lineFeed_not_mem r.text_line.1
  refine ⟨⟨_, .cons (.call _ _ rfl) (.cons (.abandon _ _ rfl) (.cons (.call _ _ rfl)
    (.cons (.answer _ _ _ _ rfl (hbody _)) (.cons (.answer _ _ _ _ rfl (hbody _))
      (.cons (.arrive _ _ _ rfl)
        (.cons (.complete_line _ rfl List.not_mem_nil (List.append_nil _).symm) (.nil _)))))))⟩,
    rfl, rfl, ?_⟩
  rw [Wire.ofLine_line]
  exact fun h => by cases h

end Dialogue

end AgentSupervisor
