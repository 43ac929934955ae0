import TableGateway.Proofs.Characters
import TableGateway.Proofs.Condition

/-! The placeholders of statements. In the text of every statement they are numbered from one on without a gap:
the payload or the row first, then what the filters bind. -/
namespace TableGateway
open Placeholder (Quiet numbers shift)

namespace WhereClause

theorem dollarlessTerms {fragments : List Text} (plain : ∀ t ∈ fragments, '$' ∉ t) :
    ∀ t ∈ fragmentTerms fragments, '$' ∉ t := by
  intro t member inside
  obtain ⟨fragment, kept, rfl⟩ := List.mem_map.mp member
  have own : '$' ∈ Text.trim fragment := by simpa using inside
  exact plain fragment (List.mem_filter.mp kept).1 (Text.memTrim own)

theorem dollarlessTail {fragments : List Text} (plain : ∀ t ∈ fragments, '$' ∉ t) :
    '$' ∉ fragmentTail fragments := by
  intro member
  obtain ⟨t, term, inside⟩ := List.mem_flatMap.mp member
  have own : '$' ∈ t := by simpa using inside
  exact dollarlessTerms plain t term own

theorem dollarlessUnfiltered {fragments : List Text} (plain : ∀ t ∈ fragments, '$' ∉ t) (start : Nat) :
    '$' ∉ (of [] fragments start).sql := by
  have alone : (of [] fragments start).sql = conjunction (fragmentTerms fragments) := rfl
  rw [alone, conjunction]
  split
  · exact List.not_mem_nil
  · intro member
    have written : '$' ∈ (" AND ".toList).intercalate (fragmentTerms fragments) := by simpa using member
    rcases Text.memIntercalate written with separator | ⟨t, term, inside⟩
    · simp at separator
    · exact dollarlessTerms plain t term inside

variable {filters : List Filter} {fragments : List Text}

theorem numbersCondition (quiet : ∀ f ∈ filters, Quiet f.column) (plain : ∀ t ∈ fragments, '$' ∉ t)
    (start : Nat) {rest : Text} (parted : Parted rest) :
    numbers ((of filters fragments start).sql ++ rest) =
      (List.range' start (filters.flatMap Filter.bound).length).map Text.ofNat ++ numbers rest := by
  cases filters with
  | nil => exact Placeholder.numbersCopied (dollarlessUnfiltered plain start) rest
  | cons first others =>
    have words : ∀ w ∈ (template first others).words, '$' ∉ w := fun w member =>
      (quietTemplate quiet w member).1
    have ends := (partedTail fragments).append parted
    rw [sqlSplit, ← fillTemplate, List.append_assoc, Template.numbersFill words start ends,
      holesTemplate, Placeholder.numbersCopied (dollarlessTail plain)]

theorem shiftPlainCondition (quiet : ∀ f ∈ filters, Quiet f.column) (plain : ∀ t ∈ fragments, '$' ∉ t)
    {start offset : Nat} (nonzero : offset ≠ 0)
    (fits : start + (filters.flatMap Filter.bound).length + offset ≤ 2 ^ 64) :
    shift offset (of filters fragments start).sql = some (of filters fragments (start + offset)).sql := by
  cases filters with
  | nil =>
    rw [Placeholder.shiftAsFrom nonzero]
    exact Placeholder.shiftFromDollarless offset false (dollarlessUnfiltered plain start)
  | cons first others =>
    rw [shiftCondition quiet nonzero fits, sqlSplit first others fragments,
      Placeholder.shiftAsFrom nonzero, Placeholder.shiftFromDollarless offset false (dollarlessTail plain),
      Placeholder.putSome]

theorem partedAppended (c : WhereClause) : Parted (Query.appended c) := by
  unfold Query.appended
  split
  · exact Parted.nil
  · exact Parted.cons .space _

theorem numbersAppended (c : WhereClause) (rest : Text) :
    numbers (Query.appended c ++ rest) = numbers (c.sql ++ rest) := by
  unfold Query.appended isEmpty
  cases c.sql with
  | nil => rfl
  | cons d text =>
    have space : '$' ∉ [' '] := by decide
    exact Placeholder.numbersCopied space _

end WhereClause

namespace Query

structure Plain (q : Query) : Prop where
  table : '$' ∉ q.table
  columns : ∀ t ∈ q.columns, '$' ∉ t
  order : ∀ o ∈ q.order, '$' ∉ o.column
  filters : ∀ f ∈ q.filters, Quiet f.column
  insert : ∀ rows ∈ q.insert, ∀ row ∈ rows, ∀ name ∈ Record.keys row, '$' ∉ name
  update : ∀ fields ∈ q.update, ∀ name ∈ Record.keys fields, '$' ∉ name
  fragments : ∀ t ∈ q.fragments, '$' ∉ t

variable {q : Query}

theorem dollarlessColumns (plain : q.Plain) : '$' ∉ ColumnList.sanitize q.columns := by
  intro member
  rcases ColumnList.memSanitize member with own | own | own | ⟨t, asked, inside⟩
  · contradiction
  · contradiction
  · contradiction
  · exact plain.columns t asked inside

theorem dollarlessReturning (plain : q.Plain) : '$' ∉ q.returningClause := by
  have columns := dollarlessColumns plain
  unfold returningClause
  split <;> simp [columns]

theorem partedReturning : Parted q.returningClause := by
  unfold returningClause
  split
  · exact Parted.cons .space _
  · exact Parted.nil

def setTemplate : Record → Template
  | [] => .last (.word [])
  | [(name, _)] => .spaced [name, "="] (.last .hole)
  | (name, _) :: rest =>
    (Template.spaced [name, "="] (.last .hole)).join .comma (.next (.word []) .space (setTemplate rest))

def setParts (fields : Record) (start : Nat) : List Text :=
  (fields.zipIdx start).map fun ((name, _), i) => name ++ " = " ++ Filter.placeholder (i + 1)

theorem fillSet (fields : Record) (start : Nat) :
    (setTemplate fields).fill (start + 1) = Text.listed (setParts fields start) := by
  fun_induction setTemplate fields generalizing start with
  | case1 => rfl
  | case2 name v => simp [setParts, Text.listed, Template.fillSpaced, Template.fillUnspaced,
      Template.fill, Atom.fill]
  | case3 name v rest more ih =>
    obtain ⟨field, others, rfl⟩ := List.exists_cons_of_ne_nil fun none => more none
    have later := ih (start + 1)
    simp only [setParts, List.zipIdx_cons, List.map_cons, Text.listed, List.intercalate_cons_cons] at later ⊢
    rw [Template.fillJoin, Template.holesSpaced]
    simp [Template.fillSpaced, Template.fillUnspaced, Template.fill, Atom.fill, Template.holes, Atom.holes,
      Separator.char, later]

theorem holesSet (fields : Record) : (setTemplate fields).holes = fields.length := by
  fun_induction setTemplate fields with
  | case1 => rfl
  | case2 name v => rfl
  | case3 name v rest more ih =>
    rw [Template.holesJoin, Template.holesSpaced]
    simp only [Template.holes, Atom.holes, ih, List.length_cons]
    omega

theorem wordsSet {fields : Record} (plain : ∀ name ∈ Record.keys fields, '$' ∉ name) :
    ∀ w ∈ (setTemplate fields).words, '$' ∉ w := by
  fun_induction setTemplate fields with
  | case1 => simp [Template.words, Atom.words]
  | case2 name v =>
    have first := plain name List.mem_cons_self
    simp [Template.wordsSpaced, Template.words, Atom.words, first]
  | case3 name v rest more ih =>
    have first := plain name List.mem_cons_self
    have later := ih fun other member => plain other (List.mem_cons_of_mem _ member)
    rw [Template.wordsJoin, Template.wordsSpaced]
    simpa [Template.words, Atom.words, first, or_imp, forall_and] using later

def selectTail (q : Query) : Text := q.orderClause ++ q.limitClause ++ q.offsetClause

theorem selectParts (q : Query) (c : WhereClause) : (q.selectStatement c).sql = "SELECT ".toList ++
    ColumnList.sanitize q.columns ++ " FROM ".toList ++ q.table ++ appended c ++ q.selectTail := by
  unfold selectStatement selectTail
  rw [← List.append_assoc, ← List.append_assoc]

theorem partedSelectTail : Parted q.selectTail := by
  have order : Parted q.orderClause := by
    unfold orderClause
    split
    · exact Parted.nil
    · exact Parted.cons .space _
  have limit : Parted q.limitClause := by
    unfold limitClause
    split
    · exact Parted.nil
    · exact Parted.cons .space _
  have offset : Parted q.offsetClause := by
    unfold offsetClause
    split
    · exact Parted.nil
    · exact Parted.cons .space _
  exact (order.append limit).append offset

theorem dollarlessInt (n : Int) : '$' ∉ Text.ofInt n := by
  intro member
  rcases Text.memOfInt member with sign | digit
  · contradiction
  · contradiction

theorem dollarlessSelectTail (plain : q.Plain) : '$' ∉ q.selectTail := by
  have order : '$' ∉ q.orderClause := by
    unfold orderClause
    split
    · exact List.not_mem_nil
    · rename_i o same
      have column := plain.order o same
      split <;> simp [column]
  have limit : '$' ∉ q.limitClause := by
    unfold limitClause
    split <;> simp [dollarlessInt]
  have offset : '$' ∉ q.offsetClause := by
    unfold offsetClause
    split <;> simp [dollarlessInt]
  simp [selectTail, order, limit, offset]

theorem numbersAround (plain : q.Plain) {head tail : Text} (before : '$' ∉ head) (after : '$' ∉ tail)
    (parted : Parted tail) :
    numbers (head ++ appended q.clause ++ tail) =
      (List.range' 1 q.clause.params.length).map Text.ofNat := by
  rw [List.append_assoc, Placeholder.numbersCopied before, WhereClause.numbersAppended]
  have inner := WhereClause.numbersCondition plain.filters plain.fragments 1 parted
  have none := Placeholder.numbersCopied after []
  rw [List.append_nil, numbers] at none
  rw [clause, inner, none, List.append_nil, WhereClause.of]

theorem numbersSelect (plain : q.Plain) : numbers (q.selectStatement q.clause).sql =
    (List.range' 1 (q.selectStatement q.clause).params.length).map Text.ofNat := by
  have head : '$' ∉ "SELECT ".toList ++ ColumnList.sanitize q.columns ++ " FROM ".toList ++ q.table := by
    simp [dollarlessColumns plain, plain.table]
  rw [selectParts]
  exact numbersAround plain head (dollarlessSelectTail plain) partedSelectTail

theorem numbersDelete (plain : q.Plain) : numbers (q.deleteStatement q.clause).sql =
    (List.range' 1 (q.deleteStatement q.clause).params.length).map Text.ofNat := by
  have head : '$' ∉ "DELETE FROM ".toList ++ q.table := by simp [plain.table]
  exact numbersAround plain head (dollarlessReturning plain) partedReturning

theorem numbersInsert (plain : q.Plain) {names : List Text} (named : ∀ name ∈ names, '$' ∉ name) :
    numbers (q.insertText names) = (List.range' 1 names.length).map Text.ofNat := by
  have tail := dollarlessReturning plain
  cases names with
  | nil =>
    have text : '$' ∉ q.insertText [] := by simp [insertText, plain.table, tail]
    simpa [numbers] using Placeholder.numbersCopied text []
  | cons name more =>
    have columns : '$' ∉ Text.listed (name :: more) := by
      intro member
      rcases Text.memListed member with own | own | ⟨t, column, inside⟩
      · contradiction
      · contradiction
      · exact named t column inside
    have head : '$' ∉ "INSERT INTO ".toList ++ q.table ++ " (".toList ++ Text.listed (name :: more) ++
        ") VALUES (".toList := by simp [plain.table, columns]
    have words : ∀ w ∈ (Template.marks more.length).words, '$' ∉ w := fun w member =>
      Template.wordsMarks more.length w member ▸ List.not_mem_nil
    have closed : '$' ∉ ')' :: q.returningClause := by simp [tail]
    have ends : Parted (')' :: q.returningClause) := Parted.cons .closing _
    have none := Placeholder.numbersCopied closed []
    have parts : q.insertText (name :: more) = "INSERT INTO ".toList ++ q.table ++ " (".toList ++
        Text.listed (name :: more) ++ ") VALUES (".toList ++
        ((Template.marks more.length).fill 1 ++ ')' :: q.returningClause) := by
      have marks : (Template.marks more.length).fill 1 =
          Text.listed ((List.range (name :: more).length).map fun i => Filter.placeholder (i + 1)) := by
        simp only [Template.fillMarks, Nat.add_comm 1, List.length_cons]
      rw [marks, ← List.append_assoc, List.append_cons]
      rfl
    rw [List.append_nil, numbers] at none
    rw [parts, Placeholder.numbersCopied head, Template.numbersFill words 1 ends, none,
      Template.holesMarks, List.append_nil, List.length_cons]

theorem numbersUpdate (plain : q.Plain) {fields : Record} (payload : q.update = some fields)
    (named : fields ≠ []) (sized : fields.length + q.clause.params.length < 2 ^ 64) {shifted : Text}
    (shifts : shift fields.length q.clause.sql = some shifted) :
    numbers (q.updated fields shifted).sql =
      (List.range' 1 (q.updated fields shifted).params.length).map Text.ofNat := by
  have nonzero : fields.length ≠ 0 := fun zero => named (List.eq_nil_of_length_eq_zero zero)
  have size : (q.updated fields shifted).params.length =
      fields.length + (q.filters.flatMap Filter.bound).length := by
    rw [updated, List.length_append, List.length_map]
    rfl
  have fits : 1 + (q.filters.flatMap Filter.bound).length + fields.length ≤ 2 ^ 64 := by
    have bound : q.clause.params.length = (q.filters.flatMap Filter.bound).length := rfl
    omega
  rw [clause, WhereClause.shiftPlainCondition plain.filters plain.fragments nonzero fits] at shifts
  obtain rfl := Option.some.inj shifts
  have words := wordsSet (plain.update fields payload)
  have later : (if q.clause.isEmpty then [] else
      ' ' :: (WhereClause.of q.filters q.fragments (1 + fields.length)).sql) =
      appended (.of q.filters q.fragments (1 + fields.length)) := by
    rw [clause, appended, WhereClause.emptySql, WhereClause.emptySql]
  have head : '$' ∉ "UPDATE ".toList ++ q.table ++ " SET ".toList := by simp [plain.table]
  have set : updateHead q fields = "UPDATE ".toList ++ q.table ++ " SET ".toList ++
      (setTemplate fields).fill (0 + 1) := by rw [fillSet]; rfl
  have ends := (WhereClause.partedAppended (.of q.filters q.fragments (1 + fields.length))).append
    (partedReturning (q := q))
  have inner := WhereClause.numbersCondition plain.filters plain.fragments (1 + fields.length)
    (partedReturning (q := q))
  have none := Placeholder.numbersCopied (dollarlessReturning plain) []
  rw [List.append_nil, numbers] at none
  rw [size, updated, later, set, List.append_assoc, List.append_assoc, Placeholder.numbersCopied head,
    Template.numbersFill words (0 + 1) ends, WhereClause.numbersAppended, inner, none, holesSet,
    List.append_nil, ← List.map_append, Nat.zero_add, List.range'_append_1]

end Query
end TableGateway
