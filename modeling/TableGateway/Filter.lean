import TableGateway.Operator
import TableGateway.Value

/-! Conditions on a column. A filter renders to text with numbered placeholders, and the values for them
are listed in the order of their numbers. Being among no values holds of nothing, its negation of all. -/
namespace TableGateway

inductive Operand
  | single (value : Value)
  | list (values : List Value)
  deriving DecidableEq, Repr

structure Filter where
  column : Text
  operator : Operator
  negated : Bool
  operand : Operand
  deriving DecidableEq, Repr

namespace Filter

def spread : Value → List Value
  | .json (.array items) => items.map Value.ofJson
  | v => [v]

def of (column : Text) (operator : Operator) (value : Value) : Filter :=
  ⟨column, operator, false, if operator = .among then .list (spread value) else .single value⟩

def among (column : Text) (values : List Value) : Filter := ⟨column, .among, false, .list values⟩

def negate (f : Filter) : Filter := { f with negated := !f.negated }

def isLiteral : Value → Bool
  | .null => true
  | .bool _ => true
  | _ => false

def placeholderCount (f : Filter) : Nat :=
  match f.operand with
  | .list values => values.length
  | .single v => if f.operator = .is ∧ isLiteral v then 0 else 1

def bound (f : Filter) : List Value :=
  match f.operand, f.operator with
  | .list values, _ => values
  | .single .null, .is => []
  | .single (.bool _), .is => []
  | .single (.json j), .contains => [.json j]
  | .single v, .contains => [.json v.toJson]
  | .single v, _ => [v]

def placeholder (n : Nat) : Text := '$' :: Text.ofNat n

def wrapNot (negated : Bool) (sql : Text) : Text := if negated then "NOT (" ++ sql ++ ")" else sql

def render (f : Filter) (start : Nat) : Text :=
  let not : Text := if f.negated then "NOT " else []
  match f.operand, f.operator with
  | .list [], _ => if f.negated then "1=1" else "1=0"
  | .list values, _ =>
    let marks := (List.range values.length).map fun i => placeholder (start + i)
    f.column ++ ' ' :: not ++ "IN (" ++ Text.listed marks ++ ")"
  | .single .null, .is => f.column ++ " IS " ++ not ++ "NULL"
  | .single (.bool b), .is => f.column ++ " IS " ++ not ++ if b then "TRUE" else "FALSE"
  | .single _, .is =>
    let sense : Text := if f.negated then [] else "NOT "
    f.column ++ " IS " ++ sense ++ "DISTINCT FROM " ++ placeholder start
  | .single _, .like => f.column ++ ' ' :: not ++ Operator.sql .like ++ ' ' :: placeholder start
  | .single _, .ilike => f.column ++ ' ' :: not ++ Operator.sql .ilike ++ ' ' :: placeholder start
  | .single _, operator =>
    wrapNot f.negated (f.column ++ ' ' :: operator.sql ++ ' ' :: placeholder start)

end Filter
end TableGateway
