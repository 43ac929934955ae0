import TableGateway.Proofs.Characters
import TableGateway.Proofs.Numbering
import TableGateway.Proofs.Words

/-! Reading conditions back. The words of a compiled condition, with the values that its placeholders stand
for, tell every filter in its place, up to what filters can differ in without asking for anything else. -/
namespace TableGateway

def Operator.spelled? (word : Text) : Option Operator :=
  [eq, neq, gt, gte, lt, lte, like, ilike, is, among, contains].find? fun operator => operator.sql = word

theorem Operator.spelledSql (operator : Operator) : spelled? operator.sql = some operator := by
  cases operator <;> rfl

namespace Filter

def normal : Filter → Filter
  | ⟨_, _, negated, .list []⟩ => ⟨[], .among, negated, .list []⟩
  | ⟨column, _, negated, .list values⟩ => ⟨column, .among, negated, .list values⟩
  | ⟨column, .contains, negated, .single v⟩ => ⟨column, .contains, negated, .single (.json v.toJson)⟩
  | f => f

theorem normalBound (column : Text) {operator : Operator} (negated : Bool) {v : Value}
    (asked : operator = .is → isLiteral v = false) :
    ∃ w, bound ⟨column, operator, negated, .single v⟩ = [w] ∧
      normal ⟨column, operator, negated, .single v⟩ = ⟨column, operator, negated, .single w⟩ := by
  cases operator with
  | is => cases v <;> first | exact ⟨_, rfl, rfl⟩ | exact absurd (asked rfl) (by simp [isLiteral])
  | contains => cases v <;> exact ⟨_, rfl, rfl⟩
  | _ => cases v <;> exact ⟨_, rfl, rfl⟩

end Filter

namespace ConditionReader
open TableGateway.Filter (placeholder negation constant literal)
open Template (closed)

abbrev Meaning := Nat → Option Value

def Meaning.of (params : List Value) (start : Nat) : Meaning := fun n =>
  if start ≤ n then params[n - start]? else none

def Meaning.Gives (meaning : Meaning) (start : Nat) (values : List Value) : Prop :=
  ∀ i < values.length, meaning (start + i) = values[i]?

def readMark (meaning : Meaning) : Text → Option Value
  | '$' :: digits => meaning (Text.toNat digits)
  | _ => none

def readMarks (meaning : Meaning) : List Text → Option (List Value × List Text)
  | [] => none
  | word :: rest =>
    match readMark meaning word.dropLast with
    | none => none
    | some v =>
      if word.getLast? = some ')' then some ([v], rest)
      else (readMarks meaning rest).map fun (values, rest) => (v :: values, rest)

def readSense : List Text → Bool × List Text
  | [] => (false, [])
  | word :: rest => if word = "NOT" then (true, rest) else (false, word :: rest)

def readIs (meaning : Meaning) (column : Text) (negated : Bool) : List Text → Option (Filter × List Text)
  | [] => none
  | word :: rest =>
    if word = "NULL" then some (⟨column, .is, negated, .single .null⟩, rest)
    else if word = literal true then some (⟨column, .is, negated, .single (.bool true)⟩, rest)
    else if word = literal false then some (⟨column, .is, negated, .single (.bool false)⟩, rest)
    else
      match rest with
      | _ :: mark :: rest =>
        (readMark meaning mark).map fun v => (⟨column, .is, !negated, .single v⟩, rest)
      | _ => none

def opened? : List Text → Option (List Text)
  | ('(' :: word) :: rest => some (word :: rest)
  | _ => none

def readSingle (meaning : Meaning) (column : Text) (operator : Operator) (negated : Bool) :
    List Text → Option (Filter × List Text)
  | [] => none
  | mark :: rest => (readMark meaning mark).map fun v => (⟨column, operator, negated, .single v⟩, rest)

def readOperand (meaning : Meaning) (column : Text) (operator : Operator) (negated : Bool)
    (words : List Text) : Option (Filter × List Text) :=
  match opened? words with
  | some list =>
    (readMarks meaning list).map fun (values, rest) => (⟨column, operator, negated, .list values⟩, rest)
  | none => readSingle meaning column operator negated words

def readColumn (meaning : Meaning) (column : Text) (words : List Text) : Option (Filter × List Text) :=
  let (negated, words) := readSense words
  match words with
  | [] => none
  | word :: rest =>
    match Operator.spelled? word with
    | none => none
    | some .is => readIs meaning column (readSense rest).1 (readSense rest).2
    | some operator => readOperand meaning column operator negated rest

def readNegated (meaning : Meaning) : List Text → Option (Filter × List Text)
  | column :: word :: mark :: rest =>
    match Operator.spelled? word, readMark meaning mark.dropLast with
    | some operator, some v => some (⟨column, operator, true, .single v⟩, rest)
    | _, _ => none
  | _ => none

def readTerm (meaning : Meaning) : List Text → Option (Filter × List Text)
  | [] => none
  | word :: rest =>
    if word = constant true then some (⟨[], .among, true, .list []⟩, rest)
    else if word = constant false then some (⟨[], .among, false, .list []⟩, rest)
    else
      -- A column can be spelled like a keyword: only the word behind the first tells which of them it is.
      match opened? rest with
      | some inner => readNegated meaning inner
      | none => readColumn meaning word rest

theorem readMarksShorter {meaning : Meaning} {words rest : List Text} {values : List Value}
    (read : readMarks meaning words = some (values, rest)) : rest.length < words.length := by
  induction words generalizing values with
  | nil => simp [readMarks] at read
  | cons word words ih =>
    simp only [readMarks] at read
    split at read
    · contradiction
    · split at read
      · cases read
        exact Nat.lt_succ_self _
      · obtain ⟨⟨others, left⟩, later, same⟩ := Option.map_eq_some_iff.mp read
        cases same
        exact Nat.lt_succ_of_lt (ih later)

theorem readSenseShorter (words : List Text) : (readSense words).2.length ≤ words.length := by
  cases words with
  | nil => exact Nat.le_refl _
  | cons word rest =>
    simp only [readSense]
    split
    · exact Nat.le_succ _
    · exact Nat.le_refl _

theorem readIsShorter {meaning : Meaning} {column : Text} {negated : Bool} {words rest : List Text}
    {f : Filter} (read : readIs meaning column negated words = some (f, rest)) :
    rest.length < words.length := by
  revert read
  fun_cases readIs meaning column negated words <;> grind [Option.map_eq_some_iff]

theorem openedLength {words inner : List Text} (opens : opened? words = some inner) :
    inner.length = words.length := by
  revert opens
  fun_cases opened? words <;> grind

theorem readSingleShorter {meaning : Meaning} {column : Text} {operator : Operator} {negated : Bool}
    {words rest : List Text} {f : Filter}
    (read : readSingle meaning column operator negated words = some (f, rest)) :
    rest.length < words.length := by
  revert read
  fun_cases readSingle meaning column operator negated words <;> grind [Option.map_eq_some_iff]

theorem readOperandShorter {meaning : Meaning} {column : Text} {operator : Operator} {negated : Bool}
    {words rest : List Text} {f : Filter}
    (read : readOperand meaning column operator negated words = some (f, rest)) :
    rest.length < words.length := by
  cases opens : opened? words with
  | none =>
    simp only [readOperand, opens] at read
    exact readSingleShorter read
  | some list =>
    simp only [readOperand, opens] at read
    obtain ⟨⟨values, left⟩, taken, same⟩ := Option.map_eq_some_iff.mp read
    cases same
    exact openedLength opens ▸ readMarksShorter taken

theorem readColumnShorter {meaning : Meaning} {column : Text} {words rest : List Text}
    {f : Filter} (read : readColumn meaning column words = some (f, rest)) :
    rest.length < words.length := by
  revert read
  fun_cases readColumn meaning column words <;>
    grind [readSenseShorter, → readOperandShorter, → readIsShorter]

theorem readNegatedShorter {meaning : Meaning} {words rest : List Text}
    {f : Filter} (read : readNegated meaning words = some (f, rest)) :
    rest.length < words.length := by
  revert read
  fun_cases readNegated meaning words <;> grind

theorem readTermShorter {meaning : Meaning} {words rest : List Text}
    {f : Filter} (read : readTerm meaning words = some (f, rest)) : rest.length < words.length := by
  revert read
  fun_cases readTerm meaning words <;>
    grind [→ openedLength, → readNegatedShorter, → readColumnShorter]

def readTerms (meaning : Meaning) (words : List Text) : Option (List Filter) :=
  match taken : readTerm meaning words with
  | none => none
  | some (f, []) => some [f]
  | some (f, _ :: rest) =>
    have : rest.length + 1 < words.length := readTermShorter taken
    (readTerms meaning rest).map (f :: ·)
  termination_by words.length

theorem readTermsLast {meaning : Meaning} {words : List Text} {f : Filter}
    (taken : readTerm meaning words = some (f, [])) : readTerms meaning words = some [f] := by
  rw [readTerms]
  split <;> simp_all

theorem readTermsNext {meaning : Meaning} {words rest : List Text} {f : Filter} {between : Text}
    (taken : readTerm meaning words = some (f, between :: rest)) :
    readTerms meaning words = (readTerms meaning rest).map (f :: ·) := by
  rw [readTerms]
  split <;> simp_all

def read (sql : Text) (params : List Value) (start : Nat) : Option (List Filter) :=
  if sql = [] then some [] else readTerms (.of params start) (sql.splitOn ' ').tail

theorem meaningGives (params : List Value) (start : Nat) : (Meaning.of params start).Gives start params := by
  intro i within
  simp [Meaning.of]

theorem Meaning.Gives.head {meaning : Meaning} {start : Nat} {v : Value} {values : List Value}
    (gives : meaning.Gives start (v :: values)) : meaning start = some v :=
  gives 0 (Nat.zero_lt_succ _)

theorem Meaning.Gives.tail {meaning : Meaning} {start : Nat} {v : Value} {values : List Value}
    (gives : meaning.Gives start (v :: values)) : meaning.Gives (start + 1) values := by
  intro i within
  have later := gives (i + 1) (Nat.succ_lt_succ within)
  rwa [List.getElem?_cons_succ, Nat.add_comm i 1, ← Nat.add_assoc] at later

theorem Meaning.Gives.left {meaning : Meaning} {start : Nat} {first second : List Value}
    (gives : meaning.Gives start (first ++ second)) : meaning.Gives start first := by
  intro i within
  have here := gives i (by simp; omega)
  rwa [List.getElem?_append_left within] at here

theorem Meaning.Gives.right {meaning : Meaning} {start : Nat} {first second : List Value}
    (gives : meaning.Gives start (first ++ second)) : meaning.Gives (start + first.length) second := by
  induction first generalizing start with
  | nil => exact gives
  | cons v first ih =>
    have later := ih gives.tail
    rwa [Nat.add_right_comm, Nat.add_assoc] at later

theorem readPlaceholder {meaning : Meaning} {start : Nat} {v : Value} {values : List Value}
    (gives : meaning.Gives start (v :: values)) : readMark meaning (placeholder start) = some v := by
  rw [placeholder, readMark, Text.toNatOfNat, gives.head]

theorem readList {meaning : Meaning} {start : Nat} {v : Value} {more : List Value}
    (gives : meaning.Gives start (v :: more)) (rest : List Text) :
    readMarks meaning ((closed (Template.marks more.length)).parts start ++ rest) =
      some (v :: more, rest) := by
  have mark := readPlaceholder gives
  induction more generalizing start v with
  | nil =>
    have last : (closed (Template.marks 0)).parts start = [placeholder start ++ [')']] := rfl
    rw [List.length_nil, last, List.singleton_append, readMarks, List.dropLast_concat, mark]
    simp
  | cons next more ih =>
    have first : (closed (Template.marks (more.length + 1))).parts start =
        (placeholder start ++ [',']) :: (closed (Template.marks more.length)).parts (start + 1) := rfl
    have others := ih gives.tail (readPlaceholder gives.tail)
    rw [List.length_cons, first, List.cons_append, readMarks, List.dropLast_concat, mark]
    simp [others]

theorem openedEnclosed (t : Template) (start : Nat) (rest : List Text) :
    opened? ((Template.enclosed t).parts start ++ rest) = some ((closed t).parts start ++ rest) := by
  have whole : (Template.enclosed t).parts start =
      ((closed t).parts start).modifyHead ('(' :: ·) := rfl
  obtain ⟨first, others, same⟩ := List.exists_cons_of_ne_nil (Template.partsNotEmpty (closed t) start)
  rw [whole, same]
  rfl

theorem readSenseNegation {word : Text} (other : word ≠ "NOT") (negated : Bool) (rest : List Text) :
    readSense (negation negated ++ word :: rest) = (negated, word :: rest) := by
  cases negated with
  | true => rfl
  | false => exact if_neg other

theorem readHeaded {meaning : Meaning} {column : Text} (name : Text.Identifier column) {words : List Text}
    (plain : opened? words = none) :
    readTerm meaning (column :: words) = readColumn meaning column words := by
  have other : ∀ b, column ≠ constant b := by
    rintro b rfl
    exact absurd name (by cases b <;> decide)
  rw [readTerm, if_neg (other true), if_neg (other false), plain]

theorem readSigned (meaning : Meaning) {column : Text} (name : Text.Identifier column)
    {operator : Operator} (other : operator ≠ .is) (negated : Bool) (rest : List Text) :
    readTerm meaning (column :: negation negated ++ operator.sql :: rest) =
      readOperand meaning column operator negated rest := by
  have word : operator.sql ≠ "NOT" := by cases operator <;> decide
  have plain : opened? (negation negated ++ operator.sql :: rest) = none := by
    cases negated <;> cases operator <;> rfl
  rw [List.cons_append, readHeaded name plain, readColumn, readSenseNegation word]
  simp only [Operator.spelledSql]

theorem readTested (meaning : Meaning) {column : Text} (name : Text.Identifier column) (negated : Bool)
    {word : Text} (other : word ≠ "NOT") (rest : List Text) :
    readTerm meaning (column :: "IS".toList :: negation negated ++ word :: rest) =
      readIs meaning column negated (word :: rest) := by
  have plain : opened? ("IS".toList :: negation negated ++ word :: rest) = none := rfl
  have sense := readSenseNegation other negated rest
  rw [List.cons_append, readHeaded name plain, readColumn]
  change readIs meaning column (readSense (negation negated ++ word :: rest)).1
    (readSense (negation negated ++ word :: rest)).2 = _
  rw [sense]

theorem readOperandList {meaning : Meaning} {start : Nat} {v : Value} {more : List Value}
    (gives : meaning.Gives start (v :: more)) (column : Text) (operator : Operator) (negated : Bool)
    (rest : List Text) :
    readOperand meaning column operator negated
      ((Template.enclosed (Template.marks more.length)).parts start ++ rest) =
      some (⟨column, operator, negated, .list (v :: more)⟩, rest) := by
  simp only [readOperand, openedEnclosed, readList gives, Option.map_some]

theorem readOperandSingle {meaning : Meaning} {start : Nat} {v : Value}
    (gives : meaning.Gives start [v]) (column : Text) (operator : Operator) (negated : Bool)
    (rest : List Text) :
    readOperand meaning column operator negated (placeholder start :: rest) =
      some (⟨column, operator, negated, .single v⟩, rest) := by
  have plain : opened? (placeholder start :: rest) = none := rfl
  simp only [readOperand, plain, readSingle, readPlaceholder gives, Option.map_some]

theorem readDistinct {meaning : Meaning} {start : Nat} {v : Value} (gives : meaning.Gives start [v])
    (column : Text) (negated : Bool) (rest : List Text) :
    readIs meaning column negated ("DISTINCT".toList :: "FROM".toList :: placeholder start :: rest) =
      some (⟨column, .is, !negated, .single v⟩, rest) := by
  have other : "DISTINCT".toList ≠ "NULL".toList ∧ "DISTINCT".toList ≠ literal true ∧
    "DISTINCT".toList ≠ literal false := by decide
  rw [readIs, if_neg other.1, if_neg other.2.1, if_neg other.2.2]
  simp only [readPlaceholder gives, Option.map_some]

theorem readWrapped {meaning : Meaning} {start : Nat} {v : Value} (gives : meaning.Gives start [v])
    (column : Text) (operator : Operator) (rest : List Text) :
    readTerm meaning ("NOT".toList :: (Template.enclosed (.spaced [column, operator.sql] (.last .hole))).parts
      start ++ rest) = some (⟨column, operator, true, .single v⟩, rest) := by
  have other : ∀ b, "NOT".toList ≠ constant b := by decide
  have inner : (closed (.spaced [column, operator.sql] (.last .hole))).parts start =
    [column, operator.sql, placeholder start ++ [')']] := rfl
  rw [List.cons_append, readTerm, if_neg (other true), if_neg (other false), openedEnclosed, inner]
  simp only [List.cons_append, List.nil_append, readNegated, Operator.spelledSql, List.dropLast_concat,
    readPlaceholder gives]

theorem readFilter {meaning : Meaning} {start : Nat} {f : Filter} (name : Text.Identifier f.column)
    (gives : meaning.Gives start f.bound) (rest : List Text) :
    readTerm meaning (f.template.parts start ++ rest) = some (f.normal, rest) := by
  induction f using Filter.forms with
  | empty column operator negated => cases negated <;> rfl
  | among column operator negated v more =>
    have asked : Operator.among ≠ .is := nofun
    have signed : ∀ tail, readTerm meaning (column :: negation negated ++ "IN".toList :: tail) =
      readOperand meaning column .among negated tail := readSigned meaning name asked negated
    have list := readOperandList gives column .among negated rest
    rw [Filter.template, Template.partsSpaced]
    simpa [Filter.normal] using (signed _).trans list
  | null column negated =>
    have other : "NULL".toList ≠ "NOT".toList := by decide
    have tested := readTested meaning name negated other rest
    have read : readIs meaning column negated ("NULL".toList :: rest) =
      some (⟨column, .is, negated, .single .null⟩, rest) := rfl
    rw [Filter.template, Filter.singleTemplate, Template.partsSpaced]
    simpa [Template.parts, Atom.fill, Filter.normal] using tested.trans read
  | bool column negated b =>
    have other : literal b ≠ "NOT" := by cases b <;> decide
    have tested := readTested meaning name negated other rest
    have read : readIs meaning column negated (literal b :: rest) =
      some (⟨column, .is, negated, .single (.bool b)⟩, rest) := by cases b <;> rfl
    rw [Filter.template, Filter.singleTemplate, Template.partsSpaced]
    simpa [Template.parts, Atom.fill, Filter.normal] using tested.trans read
  | distinct column negated v unlike =>
    obtain ⟨w, bound, normal⟩ := Filter.normalBound column negated fun _ => unlike
    have other : "DISTINCT".toList ≠ "NOT".toList := by decide
    have tested := readTested meaning name (!negated) other ("FROM".toList :: placeholder start :: rest)
    have read := readDistinct (bound ▸ gives) column (!negated) rest
    rw [Filter.templateDistinct unlike, Template.partsSpaced, normal]
    simpa [Template.parts, Atom.fill] using tested.trans read
  | matched column operator negated v pattern =>
    have asked : operator ≠ .is := by obtain rfl | rfl := pattern <;> decide
    obtain ⟨w, bound, normal⟩ := Filter.normalBound column negated fun same => absurd same asked
    have signed := readSigned meaning name asked negated (placeholder start :: rest)
    have read := readOperandSingle (bound ▸ gives) column operator negated rest
    rw [Filter.templateMatched pattern, Template.partsSpaced, normal]
    simpa [Template.parts, Atom.fill] using signed.trans read
  | compared column operator negated v plain =>
    have asked : operator ≠ .is := by rintro rfl; simp [Filter.Compared] at plain
    obtain ⟨w, bound, normal⟩ := Filter.normalBound column negated fun same => absurd same asked
    rw [Filter.templateCompared plain, normal]
    cases negated with
    | false =>
      have signed := readSigned meaning name asked false (placeholder start :: rest)
      have read := readOperandSingle (bound ▸ gives) column operator false rest
      exact signed.trans read
    | true => exact readWrapped (bound ▸ gives) column operator rest

theorem readFilters {meaning : Meaning} {start : Nat} {first : Filter} {rest : List Filter}
    (names : ∀ f ∈ first :: rest, Text.Identifier f.column)
    (gives : meaning.Gives start ((first :: rest).flatMap Filter.bound)) :
    readTerms meaning ((WhereClause.filtersTemplate first rest).parts start) =
      some ((first :: rest).map Filter.normal) := by
  induction rest generalizing first start with
  | nil =>
    have whole : meaning.Gives start first.bound := by simpa using gives
    have taken := readFilter (names first List.mem_cons_self) whole []
    rw [List.append_nil] at taken
    exact readTermsLast taken
  | cons f rest ih =>
    rw [List.flatMap_cons] at gives
    have later := ih (fun g member => names g (List.mem_cons_of_mem _ member)) gives.right
    have taken := readFilter (names first List.mem_cons_self) gives.left
      ("AND".toList :: (WhereClause.filtersTemplate f rest).parts (start + first.bound.length))
    have words : (WhereClause.filtersTemplate first (f :: rest)).parts start = first.template.parts start ++
        "AND".toList :: (WhereClause.filtersTemplate f rest).parts (start + first.bound.length) := by
      rw [WhereClause.filtersTemplate, Template.partsJoin, Filter.holesTemplate]
      rfl
    rw [words, readTermsNext taken, later]
    rfl

theorem readCompiled {filters : List Filter} (names : ∀ f ∈ filters, Text.Identifier f.column)
    (start : Nat) :
    read (WhereClause.of filters [] start).sql (WhereClause.of filters [] start).params start =
      some (filters.map Filter.normal) := by
  cases filters with
  | nil => rfl
  | cons first rest =>
    have unblank : ∀ w ∈ (WhereClause.template first rest).words, ' ' ∉ w :=
      WhereClause.everyWord (fun f member =>
        Text.Identifier.without (names f member) (by decide) (by decide)) (by decide)
    have words := Template.splitFill unblank start
    rw [WhereClause.fillTemplate] at words
    have written : (WhereClause.of (first :: rest) [] start).sql ≠ [] := by
      simpa [WhereClause.isEmpty] using WhereClause.emptySql (first :: rest) [] start
    have filtered : ((WhereClause.template first rest).parts start).tail =
      (WhereClause.filtersTemplate first rest).parts start := rfl
    rw [read, if_neg written, words, filtered]
    exact readFilters names (meaningGives _ start)

theorem identifierQuiet {t : Text} (name : Text.Identifier t) : Placeholder.Quiet t := by
  have quotes : t.count '\'' = 0 :=
    List.count_eq_zero.mpr (Text.Identifier.without name (by decide) (by decide))
  exact ⟨Text.Identifier.without name (by decide) (by decide), by rw [quotes]⟩

theorem compiledUnbound {filters : List Filter} (unbound : filters.flatMap Filter.bound = [])
    (start later : Nat) :
    (WhereClause.of filters [] start).sql = (WhereClause.of filters [] later).sql := by
  cases filters with
  | nil => rfl
  | cons first rest =>
    have none : (WhereClause.template first rest).holes = 0 := by
      rw [WhereClause.holesTemplate, unbound, List.length_nil]
    rw [← WhereClause.fillTemplate, ← WhereClause.fillTemplate, Template.fillHoleless none start later]

theorem compiledAlike {filters others : List Filter} (names : ∀ f ∈ filters, Text.Identifier f.column)
    (otherNames : ∀ f ∈ others, Text.Identifier f.column) {start later : Nat}
    (sql : (WhereClause.of others [] later).sql = (WhereClause.of filters [] start).sql)
    (params : others.flatMap Filter.bound = filters.flatMap Filter.bound) :
    (WhereClause.of others [] start).sql = (WhereClause.of filters [] start).sql := by
  have numbered : ∀ fs : List Filter, (∀ f ∈ fs, Text.Identifier f.column) → ∀ n,
      Placeholder.numbers ((WhereClause.of fs [] n).sql ++ []) =
        (List.range' n (fs.flatMap Filter.bound).length).map Text.ofNat ++ Placeholder.numbers [] :=
    fun fs named n => WhereClause.numbersCondition (fun f member => identifierQuiet (named f member))
      (List.forall_mem_nil _) n .nil
  have counted := numbered filters names start
  have recounted := numbered others otherNames later
  cases bound : filters.flatMap Filter.bound with
  | nil => rw [compiledUnbound (params.trans bound) start later, sql]
  | cons v values =>
    rw [sql, counted, params, bound] at recounted
    have first : Text.ofNat start = Text.ofNat later := by
      simpa [List.range'_succ] using congrArg List.head? recounted
    have same : start = later := by rw [← Text.toNatOfNat start, first, Text.toNatOfNat]
    rw [same, sql, same]

theorem compiledFiltersReadBack {filters : List Filter} (names : ∀ f ∈ filters, Text.Identifier f.column)
    {start : Nat} (fits : start + (filters.flatMap Filter.bound).length < 2 ^ 64) :
    ∃ c, WhereClause.compile filters [] start = some c ∧ read c.sql c.params start = some (filters.map Filter.normal) ∧
      ∀ others : List Filter, (∀ f ∈ others, Text.Identifier f.column) →
        others.map Filter.normal ≠ filters.map Filter.normal → ∀ later d,
        WhereClause.compile others [] later = some d → d.sql = c.sql → d.params ≠ c.params := by
  refine ⟨_, WhereClause.compiledFits fits [], readCompiled names start, ?_⟩
  intro others otherNames differ later d compiled sql params
  obtain ⟨-, rfl⟩ := WhereClause.compiledIff.mp compiled
  refine differ ?_
  have told := readCompiled otherNames start
  have same : (WhereClause.of others [] start).params = (WhereClause.of filters [] start).params := params
  rw [compiledAlike names otherNames sql params, same, readCompiled names start] at told
  exact (Option.some.inj told).symm

theorem keywordColumnsReadBack :
    let filters : List Filter :=
      [⟨"NOT".toList, .like, true, .single (.text "a%".toList)⟩,
        ⟨"AND".toList, .gt, true, .single (.int 3)⟩,
        ⟨"_is2".toList, .eq, true, .list []⟩,
        ⟨"IS".toList, .is, false, .single (.int 4)⟩,
        ⟨"IN".toList, .among, true, .list [.null, .bool true]⟩,
        ⟨"IN".toList, .contains, false, .single (.bool false)⟩]
    let sql := "WHERE NOT NOT LIKE $2 AND NOT (AND > $3) AND 1=1 ".toList ++
      "AND IS IS NOT DISTINCT FROM $4 AND IN NOT IN ($5, $6) AND IN @> $7".toList
    (WhereClause.compile filters [] 2).map WhereClause.sql = some sql ∧
      read sql [.text "a%".toList, .int 3, .int 4, .null, .bool true, .json (.bool false)] 2 =
        some [⟨"NOT".toList, .like, true, .single (.text "a%".toList)⟩,
          ⟨"AND".toList, .gt, true, .single (.int 3)⟩,
          ⟨[], .among, true, .list []⟩,
          ⟨"IS".toList, .is, false, .single (.int 4)⟩,
          ⟨"IN".toList, .among, true, .list [.null, .bool true]⟩,
          ⟨"IN".toList, .contains, false, .single (.json (.bool false))⟩] := by
  intro filters sql
  have written : WhereClause.compile filters [] 2 = some ⟨sql, filters.flatMap Filter.bound, 8⟩ := by decide +kernel
  have names : ∀ f ∈ filters, Text.Identifier f.column := by decide +kernel
  have fits : 2 + (filters.flatMap Filter.bound).length < 2 ^ 64 := by decide
  obtain ⟨c, compiled, told, -⟩ := compiledFiltersReadBack names fits
  rw [written] at compiled ⊢
  obtain rfl := Option.some.inj compiled
  exact ⟨rfl, told⟩

theorem lastNumberUnread :
    let f : Filter := ⟨"id".toList, .eq, false, .single (.int 1)⟩
    Text.Identifier f.column ∧ WhereClause.compile [f] [] 18446744073709551615 = none := by
  intro f
  exact ⟨by decide, by decide +kernel⟩

end ConditionReader
end TableGateway
