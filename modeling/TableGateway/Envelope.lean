import TableGateway.Fault
import TableGateway.Json.Printer
import TableGateway.Query

/-! The result of every execution: data and a count, or a fault. Reads count the rows they give, changes the
rows they touched. -/
namespace TableGateway

inductive Data
  | one (row : Record)
  | many (rows : List Record)
  deriving DecidableEq, Repr

structure Output where
  records : List Record := []
  affected : UInt64 := 0
  deriving DecidableEq, Repr

def Output.append (a b : Output) : Option Output :=
  (Word.add? a.affected.toNat b.affected.toNat).map fun n => ⟨a.records ++ b.records, UInt64.ofNat n⟩

structure Envelope where
  data : Option Data
  fault : Option Fault
  count : Option UInt64
  deriving DecidableEq, Repr

namespace Envelope

def ok (data : Option Data) (count : Option UInt64) : Envelope := ⟨data, none, count⟩

def failure (fault : Fault) : Envelope := ⟨none, some fault, none⟩

def ofOutput (plan : Plan) (output : Output) : Envelope :=
  let count := if plan.action = .select then UInt64.ofNat output.records.length else output.affected
  let records := if plan.returnsRows then output.records else []
  ok (if plan.single then records.head?.map .one else some (.many records)) (some count)

def ofRows (output : Output) : Envelope := ok (some (.many output.records)) (some output.affected)

def isOk (e : Envelope) : Bool := e.fault.isNone

def dataRows : Option Data → List Record
  | some (.many rows) => rows
  | some (.one row) => [row]
  | none => []

def rows (e : Envelope) : List Record := dataRows e.data

def row? (e : Envelope) : Option Record := e.rows.head?

def toResult (e : Envelope) : Except Fault (Option Data) :=
  match e.fault with
  | some fault => .error fault
  | none => .ok e.data

def toRows (e : Envelope) : Except Fault (List Record) := e.toResult.map dataRows

def dataJson : Option Data → Json
  | none => .null
  | some (.one row) => .object row
  | some (.many rows) => .array (rows.map .object)

def toJson (e : Envelope) : Json :=
  let count : Record := match e.count with
    | some n => [("count", .ofInt n.toNat)]
    | none => []
  let fault : Json := (e.fault.map fun f => Json.string f.message).getD .null
  .object ([("data".toList, dataJson e.data), ("error".toList, fault)] ++ count)

end Envelope
end TableGateway
