import AgentSupervisor.Proofs.InboxLog
import AgentSupervisor.Proofs.LastLines
import AgentSupervisor.Proofs.SessionTable
import AgentSupervisor.Proofs.WireRoundtrip
import Mathlib.Data.List.Basic

/-!
# Conversations over a connection

A client sends bytes in pieces of any size. The supervisor reads them a line at a time and writes
what it answers, and the client takes the answers, while anything may happen to the scene between
two lines: other clients have connections of their own, and processes end. Here no process that is
started remains a copy of the supervisor.

* `Lines.Cut`       : the lines of a stream;
* `served_answered` : what one line is answered with, and what it leaves;
* `runs_lines`      : the lines read are the first lines of what was sent;
* `runs_heard`      : the answers taken are the first answers that were written;
* `runs_orderly`    : every line has its one answer, in order.
-/

namespace AgentSupervisor

open Lines (lineFeed)

/-! ## Lines of a stream -/

theorem Client.takeLine_line {body : Bytes} (h : lineFeed ∉ body) (rest : Bytes) :
    takeLine (body ++ lineFeed :: rest) = (body ++ [lineFeed], rest) := by
  induction body with
  | nil => rfl
  | cons b body ih =>
    have hb : b ≠ lineFeed := fun heq => h (by simp [heq])
    have hbody : lineFeed ∉ body := fun hm => h (List.mem_cons_of_mem b hm)
    rw [List.cons_append, takeLine, if_neg hb, ih hbody]
    rfl

namespace Lines

/-- The lines of a stream: it is cut after every line feed, and what follows the last one is a
    line too if it is not empty. -/
inductive Cut : Bytes → List Bytes → Prop where
  | nil : Cut [] []
  | rest (bs : Bytes) (hne : bs ≠ []) (hfree : lineFeed ∉ bs) : Cut bs [bs]
  | line (body rest : Bytes) (ls : List Bytes) (hfree : lineFeed ∉ body) (hrest : Cut rest ls) :
      Cut (body ++ lineFeed :: rest) ((body ++ [lineFeed]) :: ls)

theorem exists_first_line (bs : Bytes) :
    lineFeed ∉ bs ∨ ∃ body rest, lineFeed ∉ body ∧ bs = body ++ lineFeed :: rest := by
  by_cases h : lineFeed ∈ bs
  · obtain ⟨body, rest, heq, hfree⟩ := List.eq_append_cons_of_mem h
    exact .inr ⟨body, rest, hfree, heq⟩
  · exact .inl h

theorem cut_cutAfter (bs : Bytes) : Cut bs (cutAfter lineFeed bs) := by
  induction hn : bs.length using Nat.strongRecOn generalizing bs with
  | ind n ih =>
    subst hn
    rcases exists_first_line bs with hfree | ⟨body, rest, hfree, rfl⟩
    · by_cases hne : bs = []
      · exact hne ▸ .nil
      · rw [cutAfter_line (isLine_of_not_mem hne hfree)]
        exact .rest bs hne hfree
    · have hends : EndsWith lineFeed (body ++ [lineFeed]) := by
        rw [EndsWith, List.getLast?_concat]
        exact fun _ h => (Option.some.inj h).symm
      have hcut : cutAfter lineFeed (body ++ lineFeed :: rest) =
          (body ++ [lineFeed]) :: cutAfter lineFeed rest := by
        rw [List.append_cons, cutAfter_append hends, cutAfter_line (isLine_append_feed hfree),
          List.singleton_append]
      rw [hcut]
      exact .line body rest _ hfree (ih rest.length (by simp; omega) rest rfl)

theorem exists_cut (bs : Bytes) : ∃ ls, Cut bs ls := ⟨_, cut_cutAfter bs⟩

theorem eq_nil_of_cut {ls : List Bytes} (h : Cut [] ls) : ls = [] := by
  generalize hbs : ([] : Bytes) = bs at h
  cases h with
  | nil => rfl
  | rest _ hne => exact absurd hbs.symm hne
  | line => simp at hbs

/-- A stream has one row of lines. -/
theorem Cut.unique {bs : Bytes} {ls ms : List Bytes} (h : Cut bs ls) (h' : Cut bs ms) :
    ls = ms := by
  induction h generalizing ms with
  | nil => exact (eq_nil_of_cut h').symm
  | rest bs hne hfree =>
    cases h' with
    | nil => exact absurd rfl hne
    | rest => rfl
    | line => simp at hfree
  | line body rest ls hfree _ ih =>
    generalize hbs : body ++ lineFeed :: rest = bs at h'
    cases h' with
    | nil => simp at hbs
    | rest _ _ hfree' => exact absurd (hbs ▸ by simp) hfree'
    | line body' rest' ms hfree' hrest' =>
      have htake := congrArg Client.takeLine hbs
      rw [Client.takeLine_line hfree, Client.takeLine_line hfree'] at htake
      obtain ⟨hbody, rfl⟩ := Prod.mk.inj htake
      rw [hbody, ih hrest']

end Lines

namespace Wire

theorem lineFeed_not_mem {cs : List Char} (h : '\n' ∉ cs) : lineFeed ∉ Utf8.encodeChars cs :=
  fun hm => h (Utf8.lineFeed_mem_encodeChars hm)

/-- What is written for responses has the lines of the responses, one each. -/
theorem cut_responses (rs : List Response) :
    Lines.Cut (rs.flatMap Connection.line) (rs.map Connection.line) := by
  induction rs with
  | nil => exact .nil
  | cons r rs ih =>
    have hcut := Lines.Cut.line _ _ _ (lineFeed_not_mem r.text_line.1) ih
    rw [List.flatMap_cons, List.map_cons, Connection.line, List.append_assoc]
    exact hcut

theorem cut_requests (rs : List Request) :
    Lines.Cut (rs.flatMap Client.line) (rs.map Client.line) := by
  induction rs with
  | nil => exact .nil
  | cons r rs ih =>
    have hcut := Lines.Cut.line _ _ _ (lineFeed_not_mem r.text_line.1) ih
    rw [List.flatMap_cons, List.map_cons, Client.line, List.append_assoc]
    exact hcut

/-- A client takes the first answer of those that have arrived, and leaves the others. -/
theorem receive_line (r : Response) (rs : List Response) :
    Client.receive ⟨(r :: rs).flatMap Connection.line⟩ =
      (.ok r, ⟨rs.flatMap Connection.line⟩) := by
  have htake : Client.takeLine ((r :: rs).flatMap Connection.line) =
      (Connection.line r, rs.flatMap Connection.line) := by
    rw [List.flatMap_cons, Connection.line, List.append_assoc]
    exact Client.takeLine_line (lineFeed_not_mem r.text_line.1) _
  rw [Client.receive, htake]
  simp only [ofLine_line]

end Wire

/-! ## Lines and their answers -/

/-- What a line says, if it is a request. -/
def Request.ofLine? (line : Bytes) : Option Request := (Utf8.decode? line).bind Request.ofText?

theorem Request.ofLine?_line (r : Request) : ofLine? (Client.line r) = some r := by
  rw [ofLine?, Client.line, Wire.decode?_line]
  exact r.text_line.2.2

/-- A connection, with what is around it. -/
structure Talk where
  scene : Scene
  /-- what has been sent and not been read -/
  unread : Bytes := []
  /-- has the client ended its side? -/
  hungUp : Bool := false
  /-- has the supervisor ended the connection? -/
  shut : Bool := false
  client : Client := {}

namespace Talk

/-- A line ends a connection: it is no text, or it asks the supervisor to shut down. -/
def Ends (line : Bytes) : Prop :=
  Utf8.decode? line = none ∨ Request.ofLine? line = some .shutdown

/-- What a line is answered with, and what it leaves of the scene. -/
inductive Answered (x : Scene) (line : Bytes) : List Response → Scene → Prop where
  | noText (h : Utf8.decode? line = none) : Answered x line [] x
  | noRequest (ht : Utf8.decode? line ≠ none) (h : Request.ofLine? line = none) :
      Answered x line [.error RequestError.invalidRequest.message] x
  | request (r : Request) (draw : Draw) (h : Request.ofLine? line = some r) :
      Answered x line [(x.1.handle draw x.2 r).1] (x.1.handle draw x.2 r).2

/-- What the supervisor makes of a line. -/
def served (t : Talk) (draw : Draw) (line : Bytes) : Served :=
  Connection.answerLine t.scene.1 draw t.scene.2 line

/-- **What one line is answered with.** -/
theorem served_answered (t : Talk) (draw : Draw) (line : Bytes) :
    Answered t.scene line (t.served draw line).responses
        ((t.served draw line).supervisor, (t.served draw line).host) ∧
      ((t.served draw line).closed = true ↔ Ends line) := by
  unfold served Connection.answerLine
  cases ht : Utf8.decode? line with
  | none => exact ⟨.noText ht, by simp [Ends, ht]⟩
  | some cs =>
    have hline : Request.ofLine? line = Request.ofText? cs := by rw [Request.ofLine?, ht]; rfl
    simp only
    cases hr : Request.ofText? cs with
    | none =>
      rw [hr] at hline
      exact ⟨.noRequest (by simp [ht]) hline, by simp [Ends, ht, hline]⟩
    | some r =>
      rw [hr] at hline
      refine ⟨.request r draw hline, ?_⟩
      simp [Ends, ht, hline, Connection.answer]

/-- The copies of the supervisor that come of a line. -/
def copies (t : Talk) (draw : Draw) (line : Bytes) : List Mishap :=
  Connection.mishaps (t.served draw line)

/-! ## Steps -/

/-- What happens in a conversation. -/
inductive Event where
  | sent (bs : Bytes)
  | hungUp
  /-- a line is read and answered; the scenes are those before and after -/
  | read (before : Scene) (line : Bytes) (answers : List Response) (after : Scene)
  /-- the client takes an answer -/
  | heard (answer : Except ClientError Response)
  /-- something happens to the scene -/
  | world (before after : Scene)

/-- The next line of what has not been read, and what follows it. The last line needs no line
    feed when nothing more is to come. -/
inductive Next : (hungUp : Bool) → (unread line rest : Bytes) → Prop where
  | whole (hungUp : Bool) (body rest : Bytes) (hfree : lineFeed ∉ body) :
      Next hungUp (body ++ lineFeed :: rest) (body ++ [lineFeed]) rest
  | last (line : Bytes) (hne : line ≠ []) (hfree : lineFeed ∉ line) : Next true line line []

/-- More is sent. -/
def send (t : Talk) (bs : Bytes) : Talk := { t with unread := t.unread ++ bs }

/-- A line has been read and answered. -/
def goOn (t : Talk) (r : Served) (rest : Bytes) : Talk :=
  { t with
    scene := (r.supervisor, r.host), unread := rest, shut := r.closed
    client := t.client.arrive (r.responses.flatMap Connection.line) }

/-- A step. -/
inductive Step : Talk → Event → Talk → Prop where
  | send (t : Talk) (bs : Bytes) (hopen : t.hungUp = false) : Step t (.sent bs) (t.send bs)
  | hangUp (t : Talk) : Step t .hungUp { t with hungUp := true }
  | read (t : Talk) (draw : Draw) (line rest : Bytes) (hopen : t.shut = false)
      (hnext : Next t.hungUp t.unread line rest) (halone : t.copies draw line = []) :
      Step t (.read t.scene line (t.served draw line).responses
        ((t.served draw line).supervisor, (t.served draw line).host))
        (t.goOn (t.served draw line) rest)
  /-- the client takes the next answer once its line is there -/
  | hear (t : Talk) (hline : lineFeed ∈ t.client.unread) :
      Step t (.heard t.client.receive.1) { t with client := t.client.receive.2 }
  | world (t : Talk) (x : Scene) : Step t (.world t.scene x) { t with scene := x }

/-- A connection has been opened. -/
def opened (x : Scene) : Talk := { scene := x }

/-- Nothing is left to read for the supervisor and the client until more is sent. -/
structure Idle (t : Talk) : Prop where
  unread : t.shut = true ∨ ∀ line rest, ¬ Next t.hungUp t.unread line rest
  untaken : lineFeed ∉ t.client.unread

/-- All that the client sent. -/
def sent (es : List Event) : Bytes := es.flatMap fun | .sent bs => bs | _ => []

/-- The lines that were read. -/
def linesRead (es : List Event) : List Bytes :=
  es.filterMap fun | .read _ line _ _ => some line | _ => none

/-- The answers to them. -/
def answers (es : List Event) : List Response :=
  es.flatMap fun | .read _ _ answers _ => answers | _ => []

/-- All that the supervisor wrote. -/
def written (es : List Event) : Bytes := (answers es).flatMap Connection.line

/-- The answers that the client took. -/
def heard (es : List Event) : List (Except ClientError Response) :=
  es.filterMap fun | .heard answer => some answer | _ => none

variable {t u : Talk} {x y : Scene} {e : Event} {es : List Event}

theorem runs_hungUp (hr : Runs Step t es u) (ht : t.hungUp = true) :
    sent es = [] ∧ u.hungUp = true := by
  induction hr with
  | nil => exact ⟨rfl, ht⟩
  | cons hs _ ih =>
    cases hs with
    | send bs hopen => rw [ht] at hopen; cases hopen
    | hangUp => exact ih rfl
    | read => exact ih ht
    | hear => exact ih ht
    | world => exact ih ht

theorem runs_shut (hr : Runs Step t es u) (ht : t.shut = true) :
    linesRead es = [] ∧ u.shut = true := by
  induction hr with
  | nil => exact ⟨rfl, ht⟩
  | cons hs _ ih =>
    cases hs with
    | send => exact ih ht
    | hangUp => exact ih ht
    | read _ _ _ hopen => rw [ht] at hopen; cases hopen
    | hear => exact ih ht
    | world => exact ih ht

theorem sent_cons (e : Event) (es : List Event) : sent (e :: es) = sent [e] ++ sent es := by
  simp [sent]

theorem linesRead_cons (e : Event) (es : List Event) :
    linesRead (e :: es) = linesRead [e] ++ linesRead es := by
  cases e <;> rfl

theorem answers_cons (e : Event) (es : List Event) :
    answers (e :: es) = answers [e] ++ answers es := by
  simp [answers]

theorem heard_cons (e : Event) (es : List Event) : heard (e :: es) = heard [e] ++ heard es := by
  cases e <;> rfl

/-- The next line is the first one of what has not been read and what is sent later. -/
theorem Next.cut {hungUp : Bool} {unread line rest later : Bytes} {ls : List Bytes}
    (hn : Next hungUp unread line rest) (hcut : Lines.Cut (rest ++ later) ls)
    (hlater : hungUp = true → later = []) : Lines.Cut (unread ++ later) (line :: ls) := by
  cases hn with
  | whole _ body _ hfree =>
    rw [List.append_assoc]
    exact .line body _ _ hfree hcut
  | last _ hne hfree =>
    rw [hlater rfl] at hcut ⊢
    rw [List.append_nil, Lines.eq_nil_of_cut hcut]
    exact .rest _ hne hfree

/-- A step reads the first line, or none. -/
theorem Step.lines (hs : Step t e u) {later : Bytes} {ls : List Bytes}
    (hcut : Lines.Cut (u.unread ++ later) ls) (hlater : u.hungUp = true → later = []) :
    Lines.Cut (t.unread ++ (sent [e] ++ later)) (linesRead [e] ++ ls) := by
  cases hs with
  | send bs =>
    rw [Talk.send, List.append_assoc] at hcut
    simpa [sent, linesRead] using hcut
  | hangUp | hear | world => exact hcut
  | read draw line rest hopen hnext => exact hnext.cut hcut hlater

/-- **The lines read** are the first lines of what was sent, and the others have not been read. -/
theorem runs_lines (hr : Runs Step t es u) :
    ∃ later, Lines.Cut (t.unread ++ sent es) (linesRead es ++ later) ∧
      Lines.Cut u.unread later := by
  induction hr with
  | nil t =>
    obtain ⟨ls, hls⟩ := Lines.exists_cut t.unread
    exact ⟨ls, by simpa [sent, linesRead] using hls, hls⟩
  | cons hs hr ih =>
    obtain ⟨later, hcut, hlater⟩ := ih
    refine ⟨later, ?_, hlater⟩
    rw [sent_cons, linesRead_cons, List.append_assoc]
    exact hs.lines hcut fun hh => (runs_hungUp hr hh).1

/-- A step takes the first answer that has been written, or none. -/
theorem Step.takes (hs : Step t e u) {before : List Response}
    (ht : t.client = ⟨before.flatMap Connection.line⟩) :
    ∃ later : List Response, u.client = ⟨later.flatMap Connection.line⟩ ∧
      (before ++ answers [e]).map .ok = heard [e] ++ later.map .ok := by
  cases hs with
  | send | hangUp | world => exact ⟨before, ht, by simp [answers, heard]⟩
  | read draw line rest =>
    refine ⟨before ++ (t.served draw line).responses, ?_, by simp [answers, heard]⟩
    rw [goOn, ht, Client.arrive, List.flatMap_append]
  | hear hline =>
    cases before with
    | nil =>
      rw [ht] at hline
      cases hline
    | cons r before =>
      have hreceive := Wire.receive_line r before
      rw [← ht] at hreceive
      exact ⟨before, by rw [hreceive], by simp [answers, heard, hreceive]⟩

/-- **The answers taken** are the first answers that were written. -/
theorem runs_heard (hr : Runs Step t es u) (before : List Response)
    (ht : t.client = ⟨before.flatMap Connection.line⟩) :
    ∃ later : List Response, u.client = ⟨later.flatMap Connection.line⟩ ∧
      (before ++ answers es).map .ok = heard es ++ later.map .ok := by
  induction hr generalizing before with
  | nil => exact ⟨before, ht, by simp [answers, heard]⟩
  | @cons t t' u e es hs hr ih =>
    obtain ⟨next, ht', hfirst⟩ := hs.takes ht
    obtain ⟨later, hu, hrest⟩ := ih next ht'
    refine ⟨later, hu, ?_⟩
    rw [answers_cons, heard_cons, ← List.append_assoc, List.map_append, hfirst, List.append_assoc,
      ← List.map_append, hrest, List.append_assoc]

/-- **Every line is answered**, and nothing is read after a line that ends the connection. -/
theorem runs_answered (hr : Runs Step t es u) {before after : List Event} {line : Bytes}
    {as : List Response} (hes : es = before ++ .read x line as y :: after) :
    Answered x line as y ∧ (Ends line → linesRead after = []) := by
  induction hr generalizing before with
  | nil => simp at hes
  | @cons t t' u e es hs hr ih =>
    cases before with
    | nil =>
      obtain ⟨rfl, rfl⟩ := List.cons.inj hes
      cases hs with
      | read draw _ rest hopen hnext =>
        obtain ⟨hanswered, hends⟩ := t.served_answered draw line
        exact ⟨hanswered, fun h => (runs_shut hr (hends.mpr h)).1⟩
    | cons _ before => exact ih (List.cons.inj hes).2

theorem runs_ends (hr : Runs Step t es u) (ht : t.shut = false) (hu : u.shut = true) :
    ∃ line ∈ linesRead es, Ends line := by
  induction hr with
  | nil => rw [ht] at hu; cases hu
  | @cons t t' u e es hs hr ih =>
    cases hs with
    | send => exact ih ht hu
    | hangUp => exact ih ht hu
    | read draw line rest =>
      cases hclosed : (t.served draw line).closed with
      | true => exact ⟨line, List.mem_cons_self, (t.served_answered draw line).2.mp hclosed⟩
      | false =>
        obtain ⟨l, hl, hends⟩ := ih hclosed hu
        exact ⟨l, List.mem_cons_of_mem _ hl, hends⟩
    | hear => exact ih ht hu
    | world => exact ih ht hu

/-- What has not been read when the supervisor has nothing left to do. -/
theorem Idle.rest (ht : Idle t) :
    t.shut = true ∨ lineFeed ∉ t.unread ∧ (t.hungUp = true → t.unread = []) := by
  refine ht.unread.imp_right fun hnext => ?_
  rcases Lines.exists_first_line t.unread with hfree | ⟨body, rest, hfree, heq⟩
  · refine ⟨hfree, fun hh => ?_⟩
    by_contra hne
    exact hnext t.unread [] (hh ▸ .last _ hne hfree)
  · exact absurd (heq ▸ .whole _ body rest hfree) (hnext (body ++ [lineFeed]) rest)

theorem Idle.client (ht : Idle t) {later : List Response}
    (hc : t.client = ⟨later.flatMap Connection.line⟩) : later = [] := by
  cases later with
  | nil => rfl
  | cons r later =>
    refine absurd ht.untaken (not_not_intro ?_)
    rw [hc]
    simp [Connection.line]

/-- Where every line read has one answer, answers and lines go together. -/
theorem read_of_answer {i : Nat} {a : Response} (ha : (answers es)[i]? = some a)
    (hone : ∀ x line as y, Event.read x line as y ∈ es → ∃ b, as = [b]) :
    ∃ before x line y after, es = before ++ .read x line [a] y :: after ∧
      (linesRead before).length = i := by
  induction es generalizing i with
  | nil => simp [answers] at ha
  | cons e es ih =>
    have hlater (j : Nat) (hj : (answers es)[j]? = some a) :
        ∃ before x line y after, e :: es = (e :: before) ++ .read x line [a] y :: after ∧
          (linesRead before).length = j := by
      obtain ⟨before, x, line, y, after, rfl, hlen⟩ :=
        ih hj fun x line as y hm => hone x line as y (List.mem_cons_of_mem e hm)
      exact ⟨before, x, line, y, after, rfl, hlen⟩
    cases e with
    | read x line as y =>
      obtain ⟨b, rfl⟩ := hone x line as y List.mem_cons_self
      cases i with
      | zero =>
        obtain rfl : b = a := Option.some.inj ha
        exact ⟨[], x, line, y, es, rfl, rfl⟩
      | succ i =>
        obtain ⟨before, x', line', y', after, heq, hlen⟩ := hlater i ha
        exact ⟨_, x', line', y', after, heq, congrArg (· + 1) hlen⟩
    | _ =>
      obtain ⟨before, x', line', y', after, heq, hlen⟩ := hlater i ha
      exact ⟨_, x', line', y', after, heq, hlen⟩

/-- **A client that sends requests takes their answers**, one after another. -/
theorem runs_requests (hr : Runs Step (opened x) es u) {rs : List Request}
    (hs : sent es = rs.flatMap Client.line) {i : Nat} {a : Except ClientError Response}
    (ha : (heard es)[i]? = some a) :
    ∃ r draw before z after, rs[i]? = some r ∧ a = .ok (z.1.handle draw z.2 r).1 ∧
      es = before ++ .read z (Client.line r) [(z.1.handle draw z.2 r).1]
        (z.1.handle draw z.2 r).2 :: after ∧
      (linesRead before).length = i := by
  obtain ⟨later, hcut, -⟩ := runs_lines hr
  have hlines : linesRead es ++ later = rs.map Client.line :=
    hcut.unique (by rw [show (opened x).unread ++ sent es = sent es from rfl, hs];
                    exact Wire.cut_requests rs)
  have hrequest {z z' : Scene} {line : Bytes} {as : List Response} {before after : List Event}
      (hes : es = before ++ .read z line as z' :: after) :
      ∃ r draw, rs[(linesRead before).length]? = some r ∧ line = Client.line r ∧
        as = [(z.1.handle draw z.2 r).1] ∧ z' = (z.1.handle draw z.2 r).2 := by
    have hread : linesRead es = linesRead before ++ line :: linesRead after := by
      rw [hes, linesRead, List.filterMap_append]
      rfl
    have hline : (rs.map Client.line)[(linesRead before).length]? = some line := by
      rw [← hlines, hread]
      simp
    obtain ⟨r, hri, rfl⟩ := List.getElem?_map ▸ hline |> Option.map_eq_some_iff.mp
    have hr' := Request.ofLine?_line r
    have hanswered := (runs_answered hr hes).1
    cases hanswered with
    | noText h => rw [Request.ofLine?, h] at hr'; cases hr'
    | noRequest _ h => rw [h] at hr'; cases hr'
    | request r' draw h =>
      obtain rfl : r' = r := Option.some.inj (h.symm.trans hr')
      exact ⟨r', draw, hri, rfl, rfl, rfl⟩
  obtain ⟨unheard, -, hheard⟩ := runs_heard hr [] rfl
  have hanswer : ((answers es).map Except.ok)[i]? = some a := by
    rw [show answers es = [] ++ answers es from rfl, hheard, List.getElem?_append_left]
    · exact ha
    · exact (List.getElem?_eq_some_iff.mp ha).1
  obtain ⟨b, hb, rfl⟩ := List.getElem?_map ▸ hanswer |> Option.map_eq_some_iff.mp
  obtain ⟨before, z, line, z', after, hes, hlen⟩ := read_of_answer hb (by
    intro z line as z' hm
    obtain ⟨before, after, hes⟩ := List.append_of_mem hm
    obtain ⟨r, draw, -, -, has, -⟩ := hrequest hes
    exact ⟨_, has⟩)
  obtain ⟨r, draw, hri, rfl, has, rfl⟩ := hrequest hes
  obtain rfl := List.singleton_inj.mp has
  exact ⟨r, draw, before, z, after, hlen ▸ hri, rfl, hes, hlen⟩

/-! ## Every conversation -/

/-- How the supervisor and the client talk. -/
structure Orderly (es : List Event) (u : Talk) : Prop where
  /-- the lines that are read are the first lines of what was sent -/
  lines : ∃ later, Lines.Cut (sent es) (linesRead es ++ later) ∧ Lines.Cut u.unread later
  /-- each of them is answered, and none is read after one that ends the connection -/
  answered : ∀ before x line as y after, es = before ++ .read x line as y :: after →
    Answered x line as y ∧ (Ends line → linesRead after = [])
  /-- each answer is written as one line -/
  written : Lines.Cut (written es) ((answers es).map Connection.line)
  /-- all complete lines are read in the end, and all lines when the client hangs up, unless one
      of them ends the connection -/
  settled : Idle u → (∃ line ∈ linesRead es, Ends line) ∨
    lineFeed ∉ u.unread ∧ (u.hungUp = true → Lines.Cut (sent es) (linesRead es))
  /-- the client takes the answers in order, and all of them in the end -/
  heard : heard es <+: (answers es).map .ok ∧ (Idle u → heard es = (answers es).map .ok)
  /-- and the answer that it takes for a request is the answer to that request -/
  requests : ∀ rs : List Request, sent es = rs.flatMap Client.line →
    ∀ i a, (Talk.heard es)[i]? = some a →
      ∃ r draw before z after, rs[i]? = some r ∧ a = .ok (z.1.handle draw z.2 r).1 ∧
        es = before ++ .read z (Client.line r) [(z.1.handle draw z.2 r).1]
          (z.1.handle draw z.2 r).2 :: after ∧
        (linesRead before).length = i

/-- **Every line has its one answer**, and every request the answer to that request, however the
    bytes arrive and whatever happens between two lines. -/
theorem runs_orderly (hr : Runs Step (opened x) es u) : Orderly es u := by
  obtain ⟨later, hcut, hlater⟩ := runs_lines hr
  obtain ⟨unheard, hclient, hheard⟩ := runs_heard hr [] rfl
  refine ⟨⟨later, hcut, hlater⟩, fun _ _ _ _ _ _ => runs_answered hr, Wire.cut_responses _,
    fun hidle => ?_, ⟨⟨unheard.map .ok, hheard.symm⟩, fun hidle => ?_⟩,
    fun rs hs i a ha => runs_requests hr hs ha⟩
  · rcases hidle.rest with ho | ⟨hfree, hall⟩
    · exact .inl (runs_ends hr rfl ho)
    · refine .inr ⟨hfree, fun hh => ?_⟩
      rw [hall hh] at hlater
      rw [Lines.eq_nil_of_cut hlater, List.append_nil] at hcut
      exact hcut
  · rw [hidle.client hclient] at hheard
    simpa using hheard.symm

end Talk

end AgentSupervisor
