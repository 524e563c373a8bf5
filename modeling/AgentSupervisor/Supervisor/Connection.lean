import AgentSupervisor.Supervisor.Requests
import AgentSupervisor.Wire.Client

/-!
# Connections to the supervisor

A client's bytes are cut into lines, and every line is answered by one line, in order. A line
that spells no request is answered with an error and changes nothing. A line that is not UTF-8
ends the connection without an answer, and so does a shutdown after its answer.

A new process that remains a copy of the supervisor has the connection too. If it panics, it ends
the writing side for both: one more line is carried out, and the connection ends because its
answer does not get through. If it cannot run its program, it answers the request once more, with
an error. Here it does so as soon as the answer of the supervisor is written, and nothing after
that, though it goes on as a supervisor of its own.

* `answerLine` : one line;
* `serve`      : the lines of a connection one after another;
* `receive`    : more bytes on a connection.
-/

namespace AgentSupervisor

/-- How the lines of a connection have been served. -/
structure Served where
  responses : List Response := []
  supervisor : Supervisor
  host : Host
  /-- was the connection ended? -/
  closed : Bool := false
  /-- was the supervisor asked to shut down? -/
  shutdown : Bool := false
  /-- has a copy of the supervisor ended the writing side? -/
  muted : Bool := false

/-- A connection: the bytes that do not make a line yet. -/
structure Connection where
  unread : Bytes := []
  closed : Bool := false
  /-- has a copy of the supervisor ended the writing side? -/
  muted : Bool := false
  deriving Repr, DecidableEq

namespace Connection

/-- The bytes of a response. -/
def line (r : Response) : Bytes := Utf8.encodeChars r.text ++ [Lines.lineFeed]

/-- Why the process that a response reports remains a copy of the supervisor, if it does. -/
def mishapOf? (h : Host) : Response → Option Mishap
  | .spawned _ pid _ _ => h.mishap? pid
  | _ => none

/-- Why the processes that lines have started remain copies of the supervisor, where they do. -/
def mishaps (r : Served) : List Mishap := r.responses.filterMap (mishapOf? r.host)

/-- What a copy of the supervisor answers to the request that it was started for. -/
def copyAnswers : Mishap → List Response
  | .fails e => [.error (RequestError.exec e).message]
  | .panics => []

/-- Answer a request. -/
def answer (s : Supervisor) (draw : Draw) (h : Host) (r : Request) : Served :=
  let (response, s, h) := s.handle draw h r
  { responses := [response], supervisor := s, host := h
    closed := r == .shutdown, shutdown := r == .shutdown }

/-- Answer one line. -/
def answerLine (s : Supervisor) (draw : Draw) (h : Host) (bs : Bytes) : Served :=
  match Utf8.decode? bs with
  | none => { supervisor := s, host := h, closed := true }
  | some cs =>
    match Request.ofText? cs with
    | none =>
      { responses := [.error RequestError.invalidRequest.message], supervisor := s, host := h }
    | some r => answer s draw h r

/-- Answer lines one after another until the connection ends. The processes are looked at after
    every line. -/
def serve (s : Supervisor) (h : Host) (muted : Bool) : List (Bytes × Draw) → Served
  | [] => { supervisor := s, host := h, muted }
  | (bs, draw) :: lines =>
    let first := answerLine s draw h bs
    let copies := mishaps first
    let (s, h) := first.supervisor.watch first.host
    if muted then { supervisor := s, host := h, closed := true, muted }
    else if first.closed then { first with supervisor := s, host := h }
    else
      let rest := serve s h (copies.contains .panics) lines
      { rest with responses := first.responses ++ copies.flatMap copyAnswers ++ rest.responses }

/-- The complete lines of a stream with their line feeds, and what follows them. -/
def cutLines : List (Bytes × Bool) → List Bytes × Bytes
  | [] => ([], [])
  | (bs, true) :: ls => ((bs ++ [Lines.lineFeed]) :: (cutLines ls).1, (cutLines ls).2)
  | (bs, false) :: ls => ((cutLines ls).1, bs ++ (cutLines ls).2)

/-- More bytes arrive. `draw` gives each line its draw. -/
def receive (c : Connection) (s : Supervisor) (draw : Nat → Draw) (h : Host) (bs : Bytes) :
    Served × Connection :=
  if c.closed then ({ supervisor := s, host := h, closed := true, muted := c.muted }, c)
  else
    let (lines, unread) := cutLines (Lines.split (c.unread ++ bs))
    let served := serve s h c.muted (lines.zipIdx.map fun l => (l.1, draw l.2))
    (served, { unread, closed := served.closed, muted := served.muted })

/-- The client hangs up: what it sent after the last line feed is a line too. -/
def hangUp (c : Connection) (s : Supervisor) (draw : Draw) (h : Host) : Served :=
  if c.closed || c.unread.isEmpty then
    { supervisor := s, host := h, closed := true, muted := c.muted }
  else serve s h c.muted [(c.unread, draw)]

end Connection

end AgentSupervisor
