import TableGateway.ColumnList
import TableGateway.Placeholder
import TableGateway.WhereClause

/-! The description of one operation on one table, and the statements it amounts to. -/
namespace TableGateway

inductive Action
  | select
  | insert
  | update
  | delete
  deriving DecidableEq, Repr

structure Statement where
  sql : Text
  params : List Value
  deriving DecidableEq, Repr

structure Order where
  column : Text
  ascending : Bool := true
  deriving DecidableEq, Repr

/-- A column list was asked for when `columns` is there; `returning` makes a change give back its rows. Only
the first misuse is kept. -/
structure Query where
  table : Text
  columns : Option Text := none
  filters : List Filter := []
  fragments : List Text := []
  order : Option Order := none
  limit : Option Int := none
  offset : Option Int := none
  insert : Option (List Record) := none
  update : Option Record := none
  delete : Bool := false
  returning : Bool := false
  single : Bool := false
  misuse : Option Fault := none
  deriving DecidableEq, Repr

structure Plan where
  action : Action
  table : Text
  statements : List Statement
  returnsRows : Bool
  single : Bool
  deriving DecidableEq, Repr

namespace Plan

def needsTransaction (p : Plan) : Bool := 1 < p.statements.length

end Plan

namespace Query

def of (table : Text) : Query := { table }

def fail (q : Query) (fault : Fault) : Query := { q with misuse := q.misuse.or (some fault) }

def action (q : Query) : Action :=
  if q.insert.isSome then .insert
  else if q.update.isSome then .update
  else if q.delete then .delete
  else .select

def returningClause (q : Query) : Text :=
  if q.returning then " RETURNING " ++ ColumnList.sanitize q.columns else []

def appended (c : WhereClause) : Text := if c.isEmpty then [] else ' ' :: c.sql

def condition (q : Query) : Except Halt WhereClause :=
  Halt.checked (WhereClause.compile q.filters q.fragments 1)

def orderClause (q : Query) : Text :=
  match q.order with
  | none => []
  | some o => " ORDER BY " ++ o.column ++ if o.ascending then " ASC" else " DESC"

def limitClause (q : Query) : Text :=
  match if q.single then some 1 else q.limit with
  | none => []
  | some n => " LIMIT " ++ Text.ofInt n

def offsetClause (q : Query) : Text :=
  match q.offset with
  | none => []
  | some n => " OFFSET " ++ Text.ofInt n

def selectStatement (q : Query) (c : WhereClause) : Statement :=
  { sql := "SELECT " ++ ColumnList.sanitize q.columns ++ " FROM " ++ q.table ++ appended c ++
      q.orderClause ++ q.limitClause ++ q.offsetClause
    params := c.params }

def deleteStatement (q : Query) (c : WhereClause) : Statement :=
  { sql := "DELETE FROM " ++ q.table ++ appended c ++ q.returningClause
    params := c.params }

def updateStatement (q : Query) (fields : Record) : Except Halt Statement :=
  if fields.isEmpty then .error (.fault (.validation (.nothingToSet q.table)))
  else do
    let set := fields.zipIdx.map fun ((name, _), i) => name ++ " = " ++ Filter.placeholder (i + 1)
    let c ← q.condition
    let shifted ← Halt.checked (Placeholder.shift fields.length c.sql)
    .ok {
      sql := "UPDATE " ++ q.table ++ " SET " ++ Text.listed set ++
        (if c.isEmpty then [] else ' ' :: shifted) ++ q.returningClause
      params := fields.map (fun field => Value.ofJson field.2) ++ c.params }

def sameNames (names : List Text) (row : Record) : Bool :=
  row.length = names.length && names.all fun name => (Record.get? row name).isSome

def uneven? (names : List Text) (rows : List Record) : Option (Record × Nat) :=
  (rows.zipIdx.drop 1).find? fun (row, _) => !sameNames names row

def insertText (q : Query) (names : List Text) : Text :=
  if names.isEmpty then "INSERT INTO " ++ q.table ++ " DEFAULT VALUES" ++ q.returningClause
  else
    let marks := (List.range names.length).map fun i => Filter.placeholder (i + 1)
    "INSERT INTO " ++ q.table ++ " (" ++ Text.listed names ++ ") VALUES (" ++ Text.listed marks ++
      ")" ++ q.returningClause

def rowValues (names : List Text) (row : Record) : List Value :=
  names.map fun name => ((Record.get? row name).map Value.ofJson).getD .null

def insertStatements (q : Query) : List Record → Except Fault (List Statement)
  | [] => .ok []
  | first :: rest =>
    let names := Record.keys first
    match uneven? names (first :: rest) with
    | some (row, index) => .error (.validation (.unevenRow q.table index (Record.keys row) names))
    | none => .ok ((first :: rest).map fun row => ⟨insertText q names, rowValues names row⟩)

def statements (q : Query) : Except Halt (List Statement) :=
  match q.insert, q.update, q.delete with
  | some rows, _, _ => (insertStatements q rows).mapError .fault
  | none, some fields, _ => (updateStatement q fields).map fun s => [s]
  | none, none, true => q.condition.map fun c => [deleteStatement q c]
  | none, none, false => q.condition.map fun c => [selectStatement q c]

def plan (q : Query) : Except Halt Plan :=
  match q.misuse with
  | some fault => .error (.fault fault.asMisuse)
  | none => (statements q).map fun statements =>
    { action := q.action
      table := q.table
      statements
      returnsRows := q.action = .select || q.returning
      single := q.single }

end Query
end TableGateway
