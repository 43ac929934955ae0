import TableGateway.Json

/-! Values for the placeholders of a statement. -/
namespace TableGateway

inductive Value
  | null
  | bool (b : Bool)
  | int (n : Int64)
  | float (x : Binary64)
  | text (s : Text)
  | json (j : Json)
  deriving DecidableEq, Repr

namespace Value

def ofJson : Json → Value
  | .null => .null
  | .bool b => .bool b
  | .whole n => if n.value < 2 ^ 63 then .int (Int64.ofInt n.value) else .float (Binary.ofInt _ n.value)
  | .float x => .float x.value
  | .string s => .text s
  | j => .json j

def toJson : Value → Json
  | .null => .null
  | .bool b => .bool b
  | .int n => .ofInt n.toInt
  | .float x => .ofFloat x
  | .text s => .string s
  | .json j => j

def isNull (v : Value) : Bool := v = .null

end Value
end TableGateway
