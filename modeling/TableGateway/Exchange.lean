import TableGateway.Number.Integral
import TableGateway.Row

/-! What passes between a connection and the server. The server's side is a script: an answer for every
statement in turn, and for opening, beginning and ending. -/
namespace TableGateway

inductive Message
  | connect (user database password : Text)
  | prepare (sql : Text)
  | bind (params : List (Option Bytes))
  | simple (sql : Text)
  deriving DecidableEq, Repr

inductive Answer
  | acknowledged
  | completed
  | refused (code : Text)
  | dropped
  deriving DecidableEq, Repr

structure Exchange where
  connection : Nat
  message : Message
  answer : Answer
  deriving DecidableEq, Repr

inductive Tag
  | rows
  | none
  | text (t : Text)
  deriving DecidableEq, Repr

inductive Stage
  | prepare
  | execute
  deriving DecidableEq, Repr

structure Reply where
  params : List DataType := []
  columns : List Column := []
  rows : List (List (Option Bytes)) := []
  tag : Tag := .rows
  error : Option (Stage × Text) := none
  drop : Option Stage := none
  deriving DecidableEq, Repr

/-- Error codes for what is refused, and the replies to statements; when these run out, statements take no
parameters and return nothing. -/
structure Script where
  connect : Option Text := none
  begin : Option Text := none
  commit : Option Text := none
  rollback : Option Text := none
  replies : List Reply := []
  deriving DecidableEq, Repr

namespace Reply

def lastWord (t : Text) : Text := (t.reverse.takeWhile (· ≠ ' ')).reverse

def affected (r : Reply) : UInt64 :=
  match r.tag with
  | .rows => UInt64.ofNat r.rows.length
  | .none => UInt64.ofNat r.rows.length
  | .text t =>
    match Integral.read (.unsigned 64) (lastWord t) with
    | .ok n => UInt64.ofNat n.toNat
    | .error _ => 0

end Reply
end TableGateway
