import AgentSupervisor.Files.Error
import AgentSupervisor.Text.Lines
import AgentSupervisor.Wire.Response

/-!
# Clients

A client keeps one connection. It sends a request as one line and takes the next line of the
connection as the answer, whatever it sent before.

* `receive` : the next answer of a stream and the rest of the stream.
-/

namespace AgentSupervisor

/-- Why a request has no answer. -/
inductive ClientError where
  /-- the server hung up -/
  | connectionLost
  | receive (e : IoError)
  /-- the line is no response -/
  | deserialize
  /-- no server could be reached or started in time -/
  | timeout
  deriving Repr, DecidableEq

/-- What an operator is told. -/
def ClientError.message : ClientError → String
  | .connectionLost => "connection lost"
  | .receive e => "failed to receive response: " ++ e.message
  | .deserialize => "failed to deserialize response"
  | .timeout => "server did not start in time"

/-- A client: the bytes of its connection that it has not read yet. -/
structure Client where
  unread : Bytes := []
  deriving Repr, DecidableEq

namespace Client

/-- What is sent for a request. -/
def line (r : Request) : Bytes := Utf8.encodeChars r.text ++ [Lines.lineFeed]

/-- The first line of a stream with its line feed, and the rest. -/
def takeLine : Bytes → Bytes × Bytes
  | [] => ([], [])
  | b :: bs => if b = Lines.lineFeed then ([b], bs) else (b :: (takeLine bs).1, (takeLine bs).2)

/-- The answer that a line spells. -/
def ofLine (line : Bytes) : Except ClientError Response :=
  if line.isEmpty then .error .connectionLost
  else match Utf8.decode? line with
    | none => .error (.receive .notUtf8)
    | some cs =>
      match Response.ofText? cs with
      | none => .error .deserialize
      | some r => .ok r

/-- Take the next answer. -/
def receive (c : Client) : Except ClientError Response × Client :=
  let (line, rest) := takeLine c.unread
  (ofLine line, ⟨rest⟩)

/-- More bytes arrive. -/
def arrive (c : Client) (bs : Bytes) : Client := ⟨c.unread ++ bs⟩

/-- One request after another, to each of which some bytes arrive. -/
def converse : Client → List Bytes → List (Except ClientError Response)
  | _, [] => []
  | c, reply :: replies =>
    let (answer, c) := (c.arrive reply).receive
    answer :: converse c replies

end Client

end AgentSupervisor
