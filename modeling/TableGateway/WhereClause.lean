import TableGateway.Filter
import TableGateway.Number.Word

/-! The condition of a statement: every filter in order, then every free fragment in parentheses, all of
which have to hold. Fragments that are blank are left out, and the others take no placeholders. -/
namespace TableGateway

structure WhereClause where
  sql : Text
  params : List Value
  nextIndex : Nat
  deriving DecidableEq, Repr

namespace WhereClause

def renderFilters (start : Nat) : List Filter → List Text
  | [] => []
  | f :: rest => f.render start :: renderFilters (start + f.bound.length) rest

def fragmentTerms (fragments : List Text) : List Text :=
  (fragments.filter fun t => !(Text.trim t).isEmpty).map fun t => '(' :: Text.trim t ++ [')']

def conjunction (terms : List Text) : Text :=
  if terms.isEmpty then [] else "WHERE " ++ (" AND ".toList).intercalate terms

def of (filters : List Filter) (fragments : List Text) (start : Nat) : WhereClause :=
  let params := filters.flatMap Filter.bound
  { sql := conjunction (renderFilters start filters ++ fragmentTerms fragments)
    params
    nextIndex := start + params.length }

def compile (filters : List Filter) (fragments : List Text) (start : Nat) : Option WhereClause :=
  let c := of filters fragments start
  (Word.add? start c.params.length).map fun _ => c

def isEmpty (c : WhereClause) : Bool := c.sql.isEmpty

end WhereClause
end TableGateway
