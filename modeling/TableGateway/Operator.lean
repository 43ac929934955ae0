import TableGateway.Fault
import TableGateway.Text.Blank

/-! Comparison operators of filters: their names, and how statements spell them. -/
namespace TableGateway

inductive Operator
  | eq
  | neq
  | gt
  | gte
  | lt
  | lte
  | like
  | ilike
  | is
  | among
  | contains
  deriving DecidableEq, Repr

namespace Operator

def sql : Operator → Text
  | .eq => "="
  | .neq => "!="
  | .gt => ">"
  | .gte => ">="
  | .lt => "<"
  | .lte => "<="
  | .like => "LIKE"
  | .ilike => "ILIKE"
  | .is => "IS"
  | .among => "IN"
  | .contains => "@>"

def names : List (Operator × List String) :=
  [(.eq, ["eq", "="]), (.neq, ["neq", "ne", "!=", "<>"]), (.gt, ["gt", ">"]), (.gte, ["gte", ">="]),
    (.lt, ["lt", "<"]), (.lte, ["lte", "<="]), (.like, ["like"]), (.ilike, ["ilike"]), (.is, ["is"]),
    (.among, ["in"]), (.contains, ["cs", "contains", "@>"])]

def read (t : Text) : Except ValidationCause Operator :=
  let name := Text.lower (Text.trim t)
  match names.find? fun entry => entry.2.any fun known => known.toList = name with
  | some entry => .ok entry.1
  | none => .error (.unknownOperator name)

end Operator
end TableGateway
