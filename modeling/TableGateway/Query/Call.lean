import TableGateway.Query

/-! Building a query call by call. A call that cannot be followed leaves the query as it was, but for the
misuse it records. -/
namespace TableGateway

abbrev Payload := Except Text Json

inductive Call
  | select (columns : Text)
  | filter (operator : Operator) (column : Text) (value : Value)
  | not (column operator : Text) (value : Value)
  | among (column : Text) (values : List Value)
  | contains (column : Text) (payload : Payload)
  | or (expression : Text)
  | order (order : Order)
  | limit (n : Int)
  | offset (n : Int)
  | single
  | insert (payload : Payload)
  | update (payload : Payload)
  | delete

namespace Call

def records (table : Text) : Payload → Except Fault (List Record)
  | .error message => .error (.serialization (.payload message))
  | .ok (.object fields) => .ok [fields]
  | .ok (.array items) =>
    items.zipIdx.mapM fun (item, index) =>
      match item with
      | .object fields => .ok fields
      | _ => .error (.validation (.elementNotRecord table index))
  | .ok _ => .error (.validation (.recordsExpected table))

def fields (table : Text) : Payload → Except Fault Record
  | .error message => .error (.serialization (.payload message))
  | .ok (.object fields) => .ok fields
  | .ok _ => .error (.validation (.fieldsExpected table))

def filter? (column : Text) (operator : Text) (value : Value) : Except Fault Filter :=
  match Operator.read operator with
  | .ok op => .ok (Filter.of column op value).negate
  | .error _ => .error (.validation (.unknownNegated operator))

def contained (column : Text) : Payload → Except Fault Filter
  | .ok j => .ok (.of column .contains (.json j))
  | .error message => .error (.serialization (.contained column message))

end Call

namespace Query

def keep {α : Type} (q : Query) (result : Except Fault α) (change : α → Query) : Query :=
  match result with
  | .ok x => change x
  | .error fault => q.fail fault

def addFilter (q : Query) (f : Filter) : Query := { q with filters := q.filters ++ [f] }

def call (q : Query) : Call → Query
  | .select columns => { q with columns := some columns, returning := true }
  | .filter operator column value => q.addFilter (.of column operator value)
  | .not column operator value => q.keep (Call.filter? column operator value) q.addFilter
  | .among column values => q.addFilter (.among column values)
  | .contains column payload => q.keep (Call.contained column payload) q.addFilter
  | .or expression => { q with fragments := q.fragments ++ [expression] }
  | .order order => { q with order := some order }
  | .limit n => { q with limit := some n }
  | .offset n => { q with offset := some n }
  | .single => { q with single := true }
  | .insert payload => q.keep (Call.records q.table payload) fun rows => { q with insert := some rows }
  | .update payload => q.keep (Call.fields q.table payload) fun r => { q with update := some r }
  | .delete => { q with delete := true }

def calls (q : Query) (cs : List Call) : Query := cs.foldl call q

end Query
end TableGateway
