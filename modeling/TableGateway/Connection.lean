import TableGateway.Binding
import TableGateway.Envelope
import TableGateway.Event
import TableGateway.Exchange

/-! One open connection and the statements sent over it. A statement is prepared and then bound; a text with
a zero character stops it before the one, a value that does not fit its parameter before the other. -/
namespace TableGateway

structure Connection where
  id : Nat
  alive : Bool := true
  lastUsed : Nat
  deriving DecidableEq, Repr

structure Channel where
  connection : Connection
  script : Script
  exchanges : List Exchange := []
  deriving DecidableEq, Repr

namespace Channel

def send (c : Channel) (message : Message) (answer : Answer) : Channel :=
  { c with
    connection := { c.connection with alive := c.connection.alive && answer ≠ .dropped }
    exchanges := c.exchanges ++ [⟨c.connection.id, message, answer⟩] }

def nextReply (c : Channel) : Reply × Channel :=
  (c.script.replies.head?.getD {}, { c with script := { c.script with replies := c.script.replies.drop 1 } })

def parameters (index : Nat) : List (Value × DataType) → Except BackendFault (List (Option Bytes))
  | [] => .ok []
  | (v, type) :: rest =>
    match Binding.bind v type with
    | .error _ => .error (.parameter index)
    | .ok bytes => (parameters (index + 1) rest).map (bytes :: ·)

def decodeRows (columns : List Column) : List (List (Option Bytes)) → Except Fault (List Record)
  | [] => .ok []
  | row :: rest => do
    let r ← Row.decode columns row
    let others ← decodeRows columns rest
    .ok (r :: others)

def collect (reply : Reply) : Except Fault Output := do
  let records ← decodeRows reply.columns reply.rows
  match reply.error with
  | some (_, code) => .error (.query (.server code))
  | none => .ok ⟨records, reply.affected⟩

def unsendable (t : Text) : Bool := t.contains '\x00'

def execute (c : Channel) (reply : Reply) (params : List Value) : Except Fault Output × Channel :=
  if reply.params.length ≠ params.length then
    (.error (.query (.parameterCount reply.params.length params.length)), c)
  else
    match parameters 0 (params.zip reply.params) with
    | .error fault => (.error (.query fault), c)
    | .ok bytes =>
      if reply.drop = some .execute then
        (.error (.query .closed), c.send (.bind bytes) .dropped)
      else
        let answer : Answer := match reply.error with
          | some (_, code) => .refused code
          | none => .completed
        (collect reply, c.send (.bind bytes) answer)

def query (statement : Statement) (c : Channel) : Except Fault Output × Channel :=
  if unsendable statement.sql then (.error (.query .encoding), c)
  else
    let (reply, c) := c.nextReply
    let message := Message.prepare statement.sql
    match reply.drop, reply.error with
    | some .prepare, _ => (.error (.query .closed), c.send message .dropped)
    | _, some (.prepare, code) => (.error (.query (.server code)), c.send message (.refused code))
    | _, _ => (c.send message .acknowledged).execute reply statement.params

def simple (c : Channel) (sql : Text) (refused : Option Text) : Except BackendFault Unit × Channel :=
  match refused with
  | none => (.ok (), c.send (.simple sql) .acknowledged)
  | some code => (.error (.server code), c.send (.simple sql) (.refused code))

def begin (c : Channel) : Except BackendFault Unit × Channel := c.simple "START TRANSACTION" c.script.begin

def commit (c : Channel) : Except BackendFault Unit × Channel := c.simple "COMMIT" c.script.commit

def rollback (c : Channel) : Except BackendFault Unit × Channel :=
  if c.connection.alive then c.simple "ROLLBACK" c.script.rollback else (.error .closed, c)

end Channel
end TableGateway
