import TableGateway.Fault
import TableGateway.Query

/-! What is logged. Statements appear with the number of their parameters, never with the values. -/
namespace TableGateway

inductive Level
  | debug
  | info
  | warn
  deriving DecidableEq, Repr

inductive Event
  | statement (action : Action) (table : Text) (params : Nat) (sql : Text)
  | rawQuery (params : Nat) (sql : Text)
  | queryFailed (table : Option Text) (fault : Fault)
  | rollbackFailed (table : Text) (fault : BackendFault)
  | poolCreated (host : Text) (port : Nat) (database : Text) (maxSize : Nat) (reaper : Bool)
  | poolClosed
  | reaperStarted
  | reaperEnded
  | idleClosed (reaped left : Nat)
  deriving DecidableEq, Repr

namespace Event

def cut (limit : Nat) : Text → Text
  | [] => []
  | c :: rest => if c.utf8Size ≤ limit then c :: cut (limit - c.utf8Size) rest else []

def shortened (sql : Text) : Text :=
  if Text.bytes sql ≤ 200 then sql else cut 200 sql ++ "..."

def level : Event → Level
  | .statement .. | .rawQuery .. | .reaperStarted | .reaperEnded | .idleClosed .. => .debug
  | .queryFailed .. | .rollbackFailed .. => .warn
  | .poolCreated .. | .poolClosed => .info

def ofStatement : Event → Bool
  | .statement .. | .rawQuery .. | .queryFailed .. | .rollbackFailed .. => true
  | _ => false

def message : Event → Text
  | .statement .. => "executing statement"
  | .rawQuery .. => "executing raw query"
  | .queryFailed .. => "query failed"
  | .rollbackFailed .. => "rollback failed"
  | .poolCreated .. => "connection pool created"
  | .poolClosed => "connection pool closed"
  | .reaperStarted => "idle reaper started on first query"
  | .reaperEnded => "pool closed; idle reaper exiting"
  | .idleClosed .. => "closed idle connections"

def actionName : Action → Text
  | .select => "Select"
  | .insert => "Insert"
  | .update => "Update"
  | .delete => "Delete"

def fields : Event → List (Text × Text)
  | .statement action table params sql =>
    [("kind", actionName action), ("table", table), ("params", Text.ofNat params), ("sql", shortened sql)]
  | .rawQuery params sql => [("params", Text.ofNat params), ("sql", shortened sql)]
  | .queryFailed table fault =>
    [("table", table.getD "-"), ("code", fault.code?.getD "-"), ("error", fault.message)]
  | .rollbackFailed table fault => [("table", table), ("error", fault.message)]
  | .poolCreated host port database maxSize reaper =>
    [("host", host), ("port", Text.ofNat port), ("database", database), ("max_size", Text.ofNat maxSize),
      ("idle_reaper", if reaper then "true" else "false")]
  | .idleClosed reaped left => [("reaped", Text.ofNat reaped), ("open", Text.ofNat left)]
  | .poolClosed | .reaperStarted | .reaperEnded => []

end Event
end TableGateway
