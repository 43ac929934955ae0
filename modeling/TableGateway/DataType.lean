import TableGateway.Text

/-! Types of parameters and columns. Values are understood for the scalar types listed here, for their
arrays and for enumerations; every other type is known by its name and number alone. -/
namespace TableGateway

inductive Scalar
  | bool
  | int2
  | int4
  | int8
  | oid
  | float4
  | float8
  | numeric
  | text
  | varchar
  | bpchar
  | name
  | unknown
  | json
  | jsonb
  | uuid
  | timestamptz
  | timestamp
  | date
  | time
  | bytea
  | interval
  | inet
  | cidr
  deriving DecidableEq, Repr

def Scalar.all : List (Scalar × String × Nat) :=
  [(.bool, "bool", 16), (.int2, "int2", 21), (.int4, "int4", 23), (.int8, "int8", 20), (.oid, "oid", 26),
    (.float4, "float4", 700), (.float8, "float8", 701), (.numeric, "numeric", 1700), (.text, "text", 25),
    (.varchar, "varchar", 1043), (.bpchar, "bpchar", 1042), (.name, "name", 19),
    (.unknown, "unknown", 705), (.json, "json", 114), (.jsonb, "jsonb", 3802), (.uuid, "uuid", 2950),
    (.timestamptz, "timestamptz", 1184), (.timestamp, "timestamp", 1114), (.date, "date", 1082),
    (.time, "time", 1083), (.bytea, "bytea", 17), (.interval, "interval", 1186), (.inet, "inet", 869),
    (.cidr, "cidr", 650)]

def Scalar.entry (s : Scalar) : Text × Nat :=
  match Scalar.all.find? fun entry => entry.1 = s with
  | some (_, label, number) => (label, number)
  | none => ([], 0)

inductive DataType
  | scalar (s : Scalar)
  | array (name : Text) (number : Nat) (lower : Nat) (element : DataType)
  | enumeration (name : Text) (number : Nat)
  | other (name : Text) (number : Nat)
  deriving DecidableEq, Repr

namespace DataType

def name : DataType → Text
  | .scalar s => s.entry.1
  | .array name _ _ _ => name
  | .enumeration name _ => name
  | .other name _ => name

def number : DataType → Nat
  | .scalar s => s.entry.2
  | .array _ number _ _ => number
  | .enumeration _ number => number
  | .other _ number => number

def isText : Scalar → Bool
  | .text | .varchar | .bpchar | .name | .unknown => true
  | _ => false

end DataType
end TableGateway
