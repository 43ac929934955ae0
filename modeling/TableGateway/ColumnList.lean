import TableGateway.Text.Blank

/-! Lists of columns to read. A list is split at the commas outside parentheses; pieces with parentheses
name no plain column and are dropped. -/
namespace TableGateway
namespace ColumnList

def split (depth : Nat) : Text → List Text
  | [] => [[]]
  | c :: rest =>
    if c = ',' ∧ depth = 0 then [] :: split 0 rest
    else
      let depth := if c = '(' then depth + 1 else if c = ')' then depth - 1 else depth
      match split depth rest with
      | piece :: others => (c :: piece) :: others
      | [] => [[c]]

def isPlain (t : Text) : Bool := !t.isEmpty && !t.contains '(' && !t.contains ')'

def kept (t : Text) : List Text := ((split 0 t).map Text.trim).filter isPlain

def sanitize (columns : Option Text) : Text :=
  match columns.map kept with
  | none => "*"
  | some [] => "*"
  | some names => Text.listed names

end ColumnList
end TableGateway
