import TableGateway.ArrayWire
import TableGateway.Calendar
import TableGateway.DataType.Catalogue
import TableGateway.Decimal.Wire
import TableGateway.Fault
import TableGateway.Interval
import TableGateway.Json.Reader
import TableGateway.NetAddress
import TableGateway.Uuid

/-! Rows of a reply as records. Every column type has its own bytes and its own JSON form; numbers that
could lose digits, dates and addresses become strings. A row that ends early has no values in the columns
after its end. -/
namespace TableGateway

structure Column where
  name : Text
  type : DataType
  deriving DecidableEq, Repr

namespace Row

def stringOf {α : Type} (print : α → Text) (x : Option α) : Option Json := x.map fun a => .string (print a)

def document? (bs : Bytes) : Option Json := do
  let t ← Bytes.toText? bs
  (Json.read t).toOption

def stamp? (bs : Bytes) : Option Stamp := (Bytes.exactInt? 8 bs).bind Stamp.ofMicros?

def scalar? (s : Scalar) (bs : Bytes) : Option Json :=
  match s with
  | .bool => if bs.length = 1 then some (.bool (bs ≠ [0])) else none
  | .int2 => (Bytes.exactInt? 2 bs).map .ofInt
  | .int4 => (Bytes.exactInt? 4 bs).map .ofInt
  | .int8 => (Bytes.exactInt? 8 bs).map .ofInt
  | .oid => (Bytes.exactNat? 4 bs).map fun n => .ofInt n
  | .float4 => (Binary.ofBytes? .single bs).map fun x => .ofFloat (x.convert .double)
  | .float8 => (Binary.ofBytes? .double bs).map .ofFloat
  | .numeric => stringOf Decimal.print ((Numeric.ofBytes? bs).bind Numeric.toDecimal?)
  | .text | .varchar | .bpchar | .name | .unknown => (Bytes.toText? bs).map .string
  | .json => document? bs
  | .jsonb =>
    match bs with
    | 1 :: rest => document? rest
    | _ => none
  | .uuid => stringOf Uuid.print (Uuid.ofBytes? bs)
  | .timestamptz => stringOf Stamp.printUniversal (stamp? bs)
  | .timestamp => stringOf Stamp.print (stamp? bs)
  | .date => stringOf Date.print ((Bytes.exactInt? 4 bs).bind Date.ofDay?)
  | .time => stringOf Clock.print ((Bytes.exactInt? 8 bs).map Clock.ofMicros)
  | .bytea => some (.string ('\\' :: 'x' :: Hex.ofBytes bs))
  | .interval => stringOf Interval.print (Interval.ofBytes? bs)
  | .inet | .cidr => stringOf NetAddress.print (NetAddress.ofBytes? bs)

def label? (bs : Bytes) : Option Json := (Bytes.toText? bs).map .string

def elementReader? : DataType → Option ((Bytes → Option Json) × Bool)
  | .scalar s =>
    if s = .oid ∨ s = .time ∨ s = .unknown then none
    else some (scalar? s, s ≠ .json && s ≠ .jsonb)
  | .enumeration _ _ => some (label?, true)
  | _ => none

def array? (read : Bytes → Option Json) (missing : Bool) (bs : Bytes) : Option Json := do
  let elements ← ArrayWire.decode? bs
  let items ← elements.mapM fun element =>
    match element with
    | some bs => read bs
    | none => if missing then some .null else none
  some (.array items)

/-- An array of scalars that a database declares is not the one that every database has. -/
def isKnownArray (number : Nat) : (element : DataType) → Bool
  | .scalar s => DataType.arrayNumber? s = some number
  | _ => true

def reader? : DataType → Option (Bytes → Option Json)
  | .scalar s => some (scalar? s)
  | .enumeration _ _ => some label?
  | .array _ number _ element =>
    if isKnownArray number element then
      (elementReader? element).map fun (read, missing) => array? read missing
    else none
  | .other _ _ => none

def column (index : Nat) (type : DataType) (value : Option Bytes) : Except DecodeCause Json :=
  match reader? type, value with
  | none, _ => .error (.unsupported type.name)
  | some _, none => .ok .null
  | some read, some bs =>
    match read bs with
    | some j => .ok j
    | none => .error (.unreadable index)

def decodeFrom (index : Nat) (r : Record) : List (Column × Option Bytes) → Except Fault Record
  | [] => .ok r
  | (c, value) :: rest =>
    match column index c.type value with
    | .ok j => decodeFrom (index + 1) (Record.put r c.name j) rest
    | .error cause => .error (.decode c.name cause)

def decode (columns : List Column) (values : List (Option Bytes)) : Except Fault Record :=
  decodeFrom 0 [] (columns.zip (values ++ List.replicate columns.length none))

end Row
end TableGateway
