import TableGateway.Proofs.Calls
import TableGateway.Proofs.ColumnPieces
import TableGateway.Proofs.Lexeme
import TableGateway.Proofs.Secrecy

/-! Names of columns, plain or quoted, in the list of a query. Cleaning knows no quotes: a quoted name with a
parenthesis is dropped, and what stands around a comma in one is written anew. The lists that cleaning leaves as
they are, are those with a single space behind each comma, and a list of names is kept if and only if each name
is such a list. -/
namespace TableGateway
namespace ColumnList

structure Settled (t : Text) : Prop where
  filled : t ≠ []
  opening : '(' ∉ t
  closing : ')' ∉ t
  first : ∀ c ∈ t.head?, c ≠ ',' ∧ ¬ isBlank c
  last : ∀ c ∈ t.getLast?, ¬ isBlank c
  comma : ∀ before after, t = before ++ ',' :: after →
    (∀ c ∈ before.getLast?, ¬ isBlank c) ∧ ∃ c rest, after = ' ' :: c :: rest ∧ c ≠ ',' ∧ ¬ isBlank c

variable {t u : Text}

theorem Clean.settled {name : Text} (clean : Clean name) : Settled name := by
  obtain ⟨filled, trimmed, comma, opening, closing⟩ := clean
  refine ⟨filled, opening, closing, fun c member => ⟨?_, ?_⟩, ?_, fun before after same => ?_⟩
  · rintro rfl
    exact comma (List.mem_of_mem_head? member)
  · exact Text.trimFirst name c (trimmed.symm ▸ member)
  · exact fun c member => Text.trimLast name c (trimmed.symm ▸ member)
  · exact absurd (by simp [same]) comma

theorem Settled.clean (settled : Settled t) (comma : ',' ∉ t) : Clean t where
  filled := settled.filled
  trimmed := Text.trimKeeps (fun c member => (settled.first c member).2) settled.last
  comma := comma
  opening := settled.opening
  closing := settled.closing

theorem commaWhere {before after : Text} (same : t ++ ',' :: ' ' :: u = before ++ ',' :: after) :
    (∃ between, t = before ++ ',' :: between ∧ after = between ++ ',' :: ' ' :: u) ∨
      (before = t ∧ after = ' ' :: u) ∨
      ∃ between, u = between ++ ',' :: after ∧ before = t ++ ',' :: ' ' :: between := by
  rcases List.append_eq_append_iff.mp same with ⟨gap, rfl, cut⟩ | ⟨gap, rfl, cut⟩
  · match gap, cut with
    | [], cut => exact .inr (.inl ⟨by simp, (List.cons.inj cut).2.symm⟩)
    | [_], cut => simp at cut
    | _ :: _ :: between, cut =>
      obtain ⟨rfl, rfl, rfl⟩ : ',' = _ ∧ ' ' = _ ∧ u = between ++ ',' :: after := by simpa using cut
      exact .inr (.inr ⟨between, rfl, rfl⟩)
  · match gap, cut with
    | [], cut => exact .inr (.inl ⟨by simp, (List.cons.inj cut).2⟩)
    | _ :: between, cut =>
      obtain ⟨rfl, rfl⟩ := List.cons.inj cut
      exact .inl ⟨between, by simp, rfl⟩

theorem lastJoined (filled : u ≠ []) (t : Text) : (t ++ ',' :: ' ' :: u).getLast? = u.getLast? := by
  rw [List.append_cons, List.append_cons, List.getLast?_append_of_ne_nil _ filled]

theorem Settled.join (left : Settled t) (right : Settled u) : Settled (t ++ ',' :: ' ' :: u) := by
  refine ⟨by simp, by simp [left.opening, right.opening], by simp [left.closing, right.closing], ?_, ?_,
    fun before after same => ?_⟩
  · rw [List.head?_append_of_ne_nil _ left.filled]
    exact left.first
  · rw [lastJoined right.filled]
    exact right.last
  · obtain ⟨d, rest, rfl⟩ := List.exists_cons_of_ne_nil right.filled
    rcases commaWhere same with ⟨between, own, rfl⟩ | ⟨rfl, rfl⟩ | ⟨between, own, rfl⟩
    · obtain ⟨solid, c, more, rfl, next⟩ := left.comma before between own
      exact ⟨solid, c, more ++ ',' :: ' ' :: d :: rest, rfl, next⟩
    · exact ⟨left.last, d, rest, rfl, right.first d rfl⟩
    · obtain ⟨solid, next⟩ := right.comma between after own
      refine ⟨?_, next⟩
      -- A comma does not come first in the right text, so its own characters stand in front of it.
      have filled : between ≠ [] := by
        rintro rfl
        exact (right.first ',' (by simp [own])).1 rfl
      rwa [lastJoined filled]

theorem Settled.parts (filled : t ≠ []) (whole : Settled (t ++ ',' :: ' ' :: u)) : Settled t ∧ Settled u := by
  obtain ⟨-, opening, closing, first, last, comma⟩ := whole
  simp only [List.mem_append, List.mem_cons, not_or] at opening closing
  obtain ⟨front, c, rest, same, start⟩ := comma t (' ' :: u) rfl
  obtain rfl : u = c :: rest := (List.cons.inj same).2
  rw [List.head?_append_of_ne_nil _ filled] at first
  rw [lastJoined (by simp)] at last
  constructor
  · refine ⟨filled, opening.1, closing.1, first, front, ?_⟩
    rintro before after rfl
    obtain ⟨solid, d, more, spaced, other, next⟩ := comma before (after ++ ',' :: ' ' :: c :: rest) (by simp)
    refine ⟨solid, ?_⟩
    match after, spaced with
    | [], spaced => exact absurd (List.cons.inj spaced).1 (by decide)
    | [_], spaced => exact absurd (List.cons.inj (List.cons.inj spaced).2).1.symm other
    | _ :: _ :: after, spaced =>
      obtain ⟨rfl, rfl, -⟩ : _ = ' ' ∧ _ = d ∧ _ = more := by simpa using spaced
      exact ⟨_, after, rfl, other, next⟩
  · refine ⟨by simp, by simp [opening], by simp [closing], by simpa using start, last, ?_⟩
    intro before after own
    obtain ⟨solid, next⟩ := comma (t ++ ',' :: ' ' :: before) after (by simp [own])
    refine ⟨fun d member => ?_, next⟩
    have filled : before ≠ [] := by
      rintro rfl
      simp at member
    rw [lastJoined filled] at solid
    exact solid d member

theorem settledListed {names : List Text} (named : names ≠ []) (filled : ∀ name ∈ names, name ≠ []) :
    Settled (Text.listed names) ↔ ∀ name ∈ names, Settled name := by
  induction names with
  | nil => contradiction
  | cons name rest ih =>
    obtain ⟨own, others⟩ := List.forall_mem_cons.mp filled
    cases rest with
    | nil => simp [Text.listed]
    | cons next rest =>
      rw [Text.listedCons (by simp), List.forall_mem_cons, ← ih (by simp) others]
      exact ⟨Settled.parts own, fun parts => parts.1.join parts.2⟩

theorem Settled.names (settled : Settled t) :
    ∃ names, names ≠ [] ∧ (∀ name ∈ names, Clean name) ∧ t = Text.listed names := by
  -- The first name is cut off at the first comma, so the induction is on the length.
  induction size : t.length using Nat.strongRecOn generalizing t with
  | _ n ih =>
    by_cases comma : ',' ∈ t
    · obtain ⟨name, after, rfl, own⟩ := List.eq_append_cons_of_mem comma
      obtain ⟨-, c, rest, rfl, -⟩ := settled.comma name after rfl
      have filled : name ≠ [] := by
        rintro rfl
        exact (settled.first ',' rfl).1 rfl
      obtain ⟨left, right⟩ := settled.parts filled
      obtain ⟨names, some, clean, same⟩ := ih (c :: rest).length (by simp at size; grind) right rfl
      exact ⟨name :: names, by simp, List.forall_mem_cons.mpr ⟨left.clean own, clean⟩, by
        rw [Text.listedCons some, same]⟩
    · exact ⟨[t], by simp, List.forall_mem_singleton.mpr (settled.clean comma), by simp [Text.listed]⟩

theorem sanitizeSettled (columns : Option Text) : Settled (sanitize columns) := by
  have star : Settled "*" := Clean.settled ⟨by decide, by decide, by decide, by decide, by decide⟩
  cases columns with
  | none => exact star
  | some t =>
    rw [sanitizeKept]
    split
    · exact star
    · rename_i named
      have clean := keptClean t
      exact (settledListed named fun name member => (clean name member).filled).mpr
        fun name member => (clean name member).settled

theorem settledFixed : Settled t ↔ sanitize (some t) = t := by
  constructor
  · intro settled
    obtain ⟨names, named, clean, rfl⟩ := settled.names
    rw [sanitizeKept, keptListed clean named, if_neg named]
  · intro fixed
    rw [← fixed]
    exact sanitizeSettled (some t)

variable {blanks : Text}

theorem blankWithout (blank : ∀ c ∈ blanks, isBlank c) {c : Char} (solid : ¬ isBlank c) : c ∉ blanks :=
  fun member => solid (blank c member)

theorem keptBlanks (blank : ∀ c ∈ blanks, isBlank c) (t : Text) : kept (blanks ++ t) = kept t := by
  induction blanks with
  | nil => rfl
  | cons c blanks ih =>
    obtain ⟨first, others⟩ := List.forall_mem_cons.mp blank
    exact (keptBlank first _).trans (ih others)

theorem splitBehind (comma : ',' ∉ blanks) (depth : Nat) (t : Text) :
    ∃ pieces last, split depth t = pieces ++ [last] ∧ split depth (t ++ blanks) = pieces ++ [last ++ blanks] := by
  induction t generalizing depth with
  | nil => exact ⟨[], [], rfl, splitWhole fun a b (same : blanks = _) _ => comma (by simp [same])⟩
  | cons c t ih =>
    by_cases cut : c = ',' ∧ depth = 0
    · obtain ⟨pieces, last, own, longer⟩ := ih 0
      exact ⟨[] :: pieces, last, by simp [split, cut, own], by simp [split, cut, longer]⟩
    · obtain ⟨pieces, last, own, longer⟩ := ih (deeper depth c)
      rw [List.cons_append, splitCons cut, splitCons cut, own, longer]
      cases pieces with
      | nil => exact ⟨[], c :: last, rfl, rfl⟩
      | cons piece pieces => exact ⟨(c :: piece) :: pieces, last, rfl, rfl⟩

theorem keptBefore (blank : ∀ c ∈ blanks, isBlank c) (t : Text) : kept (t ++ blanks) = kept t := by
  obtain ⟨pieces, last, own, longer⟩ := splitBehind (blankWithout blank (by decide)) 0 t
  simp [kept, own, longer, Text.trimBefore blank]

end ColumnList

inductive ColumnName
  | plain (name : Text)
  | quoted (content : Text)
  deriving DecidableEq, Repr

namespace ColumnName

def text : ColumnName → Text
  | .plain name => name
  | .quoted content => '"' :: Lexeme.doubled '"' content ++ ['"']

def Proper : ColumnName → Bool
  | .plain [] => false
  | .plain (c :: t) => Text.isLetter c && t.all fun d => Text.isLetter d || d.isDigit || d = '$'
  | .quoted _ => true

theorem filled {name : ColumnName} (proper : name.Proper) : name.text ≠ [] := by
  match name, proper with
  | .plain (_ :: _), _ => simp [text]
  | .quoted _, _ => simp [text]

end ColumnName

namespace ColumnList

inductive Written : List ColumnName → Text → Prop
  | last {name : ColumnName} (before after : Text) (proper : name.Proper) (front : ∀ c ∈ before, isBlank c)
      (back : ∀ c ∈ after, isBlank c) : Written [name] (before ++ name.text ++ after)
  | next {name : ColumnName} {names : List ColumnName} {rest : Text} (before after : Text) (proper : name.Proper)
      (front : ∀ c ∈ before, isBlank c) (back : ∀ c ∈ after, isBlank c) (later : Written names rest) :
      Written (name :: names) (before ++ name.text ++ after ++ ',' :: rest)

variable {names : List ColumnName} {text : Text}

theorem Written.named (written : Written names text) : names ≠ [] := by
  cases written <;> simp

theorem Written.proper (written : Written names text) : ∀ name ∈ names, name.Proper := by
  induction written with
  | last _ _ proper => exact List.forall_mem_singleton.mpr proper
  | next _ _ proper _ _ _ ih => exact List.forall_mem_cons.mpr ⟨proper, ih⟩

theorem keptAround {before after : Text} (front : ∀ c ∈ before, isBlank c) (back : ∀ c ∈ after, isBlank c)
    (t : Text) : kept (before ++ t ++ after) = kept t := by
  rw [keptBefore back, keptBlanks front]

theorem keptWritten (written : Written names text) (settled : ∀ name ∈ names, Settled name.text) :
    kept text = kept (Text.listed (names.map ColumnName.text)) := by
  induction written with
  | last before after proper front back => simpa [Text.listed] using keptAround front back _
  | @next name names rest before after proper front back later ih =>
    obtain ⟨own, others⟩ := List.forall_mem_cons.mp settled
    have flat {c : Char} (solid : ¬ isBlank c) (absent : c ∉ name.text) : c ∉ before ++ name.text ++ after := by
      simp [absent, blankWithout front solid, blankWithout back solid]
    have outside : depthBehind 0 (before ++ name.text ++ after) = 0 :=
      flatDepth (flat (by decide) own.opening) (flat (by decide) own.closing) 0
    rw [keptAppend outside, keptAround front back, ih others, List.map_cons,
      Text.listedCons (by simpa using later.named), keptAppend (flatDepth own.opening own.closing 0),
      keptBlank (by decide)]

theorem sanitizeWritten (written : Written names text) :
    sanitize (some text) = Text.listed (names.map ColumnName.text) ↔ ∀ name ∈ names, Settled name.text := by
  have whole : Settled (Text.listed (names.map ColumnName.text)) ↔ ∀ name ∈ names, Settled name.text := by
    rw [settledListed (by simpa using written.named) (List.forall_mem_map.mpr fun name member =>
      ColumnName.filled (written.proper name member)), List.forall_mem_map]
  rw [← whole]
  constructor
  · intro same
    exact same ▸ sanitizeSettled (some text)
  · intro settled
    rw [sanitizeKept, keptWritten written (whole.mp settled), ← sanitizeKept]
    exact settledFixed.mp settled

end ColumnList

inductive Statement.Lists (list : Text) : Action → Statement → Statement → Prop
  | read (rest : Text) (params : List Value) :
      Lists list .select ⟨"SELECT ".toList ++ "*".toList ++ rest, params⟩ ⟨"SELECT ".toList ++ list ++ rest, params⟩
  | change {action : Action} (changes : action ≠ .select) (s : Statement) :
      Lists list action s ⟨s.sql ++ " RETURNING ".toList ++ list, s.params⟩

namespace Query

variable {q : Query}

def unlisted (q : Query) : Query := { q with columns := none, returning := false }

theorem changeLists (returning : q.returning) {action : Action} (changes : action ≠ .select) (start : Text)
    (params : List Value) :
    Statement.Lists (ColumnList.sanitize q.columns) action ⟨start ++ q.unlisted.returningClause, params⟩
      ⟨start ++ q.returningClause, params⟩ := by
  have silent : q.unlisted.returningClause = [] := rfl
  have said : q.returningClause = " RETURNING ".toList ++ ColumnList.sanitize q.columns := if_pos returning
  rw [silent, said, List.append_nil, ← List.append_assoc]
  exact .change changes ⟨start, params⟩

theorem insertLists (returning : q.returning) {action : Action} (changes : action ≠ .select) (rows : List Record) :
    Agree (List.Forall₂ (Statement.Lists (ColumnList.sanitize q.columns) action))
      (insertStatements q.unlisted rows) (insertStatements q rows) := by
  cases rows with
  | nil => exact .built .nil
  | cons first rest =>
    simp only [insertStatements]
    split
    · exact .failed _
    · refine .built ?_
      rw [List.forall₂_map_left_iff, List.forall₂_map_right_iff, List.forall₂_same]
      intro row _
      cases Record.keys first with
      | nil => exact changeLists returning changes _ _
      | cons name names => exact changeLists returning changes _ _

theorem updateLists (returning : q.returning) {action : Action} (changes : action ≠ .select) (fields : Record) :
    Agree (Statement.Lists (ColumnList.sanitize q.columns) action) (updateStatement q.unlisted fields)
      (updateStatement q fields) := by
  cases fields with
  | nil => exact .failed _
  | cons field fields =>
    have head : updateHead q.unlisted (field :: fields) = updateHead q (field :: fields) := rfl
    have condition : q.unlisted.condition = q.condition := rfl
    have clause : q.unlisted.clause = q.clause := rfl
    rw [updateBuilt (by simp), updateBuilt (by simp), condition, clause]
    cases q.condition with
    | error halt => exact .failed _
    | ok c =>
      have same := Agree.diagonal Eq.refl (Halt.checked (Placeholder.shift (field :: fields).length q.clause.sql))
      refine same.map _ _ fun shifted _ equal => ?_
      rw [← equal]
      unfold updated
      rw [head, clause]
      exact changeLists returning changes _ _

theorem deleteLists (returning : q.returning) {action : Action} (changes : action ≠ .select) (c : WhereClause) :
    Statement.Lists (ColumnList.sanitize q.columns) action (q.unlisted.deleteStatement c) (q.deleteStatement c) := by
  have table : q.unlisted.table = q.table := rfl
  unfold deleteStatement
  rw [table]
  exact changeLists returning changes _ _

theorem selectLists (q : Query) (c : WhereClause) :
    Statement.Lists (ColumnList.sanitize q.columns) .select (q.unlisted.selectStatement c) (q.selectStatement c) := by
  have table : q.unlisted.table = q.table := rfl
  have order : q.unlisted.orderClause = q.orderClause := rfl
  have limit : q.unlisted.limitClause = q.limitClause := rfl
  have offset : q.unlisted.offsetClause = q.offsetClause := rfl
  have star : ColumnList.sanitize q.unlisted.columns = "*".toList := rfl
  have lists : Statement.Lists (ColumnList.sanitize q.columns) .select _ _ := .read (" FROM ".toList ++ q.table ++
    appended c ++ q.orderClause ++ q.limitClause ++ q.offsetClause) c.params
  unfold selectStatement
  rw [table, order, limit, offset, star]
  simpa only [← List.append_assoc] using lists

theorem statementsLists (returning : q.returning) :
    Agree (List.Forall₂ (Statement.Lists (ColumnList.sanitize q.columns) q.action)) q.unlisted.statements
      q.statements := by
  have insert : q.unlisted.insert = q.insert := rfl
  have update : q.unlisted.update = q.update := rfl
  have delete : q.unlisted.delete = q.delete := rfl
  have condition : q.unlisted.condition = q.condition := rfl
  have same : Agree Eq q.condition q.condition := .diagonal (fun _ => rfl) _
  unfold statements action
  rw [insert, update, delete, condition]
  cases q.insert with
  | some rows => exact (insertLists returning (by simp) rows).mapError _
  | none =>
    cases q.update with
    | some fields => exact (updateLists returning (by simp) fields).map _ _ fun _ _ lists => .cons lists .nil
    | none =>
      cases q.delete with
      | true => exact same.map _ _ fun c _ same => same ▸ .cons (deleteLists returning (by simp) c) .nil
      | false => exact same.map _ _ fun c _ same => same ▸ .cons (selectLists q c) .nil

theorem planLists (returning : q.returning) :
    Agree (fun bare p => p = { bare with statements := p.statements, returnsRows := true } ∧
        List.Forall₂ (Statement.Lists (ColumnList.sanitize q.columns) p.action) bare.statements p.statements)
      q.unlisted.plan q.plan := by
  have misuse : q.unlisted.misuse = q.misuse := rfl
  unfold plan
  rw [misuse]
  cases q.misuse with
  | some fault => exact .failed _
  | none =>
    refine (statementsLists returning).map _ _ fun bare listed lists => ⟨?_, lists⟩
    rw [returning, Bool.or_true]
    rfl

theorem selectLast (table : Text) (before : List Call) (columns : Text) {after : List Call}
    (last : ∀ c ∈ after, c.group table ≠ .select) :
    let q := (of table).calls (before ++ .select columns :: after)
    q.columns = some columns ∧ q.returning = true := by
  intro q
  let chosen := ((of table).calls before).call (.select columns)
  have named : chosen.table = table := (of table).callsTable before
  have later := chosen.callsWithin after .select
  rw [named, List.filter_eq_nil_iff.mpr (by simpa using last)] at later
  have whole : q = chosen.calls after := by simp [q, chosen, calls]
  rw [whole]
  exact later

theorem columnNamesListed (table : Text) {names : List ColumnName} {text : Text}
    (written : ColumnList.Written names text) (before : List Call) {after : List Call}
    (last : ∀ c ∈ after, c.group table ≠ .select) :
    let q := (of table).calls (before ++ .select text :: after)
    let list := ColumnList.sanitize (some text)
    Agree (fun bare p => p = { bare with statements := p.statements, returnsRows := true } ∧
        List.Forall₂ (Statement.Lists list p.action) bare.statements p.statements) q.unlisted.plan q.plan ∧
      (list = Text.listed (names.map ColumnName.text) ↔ ∀ name ∈ names, ColumnList.Settled name.text) := by
  intro q list
  obtain ⟨columns, returning⟩ : q.columns = some text ∧ q.returning = true := selectLast table before text last
  have planned := planLists returning
  rw [columns] at planned
  exact ⟨planned, ColumnList.sanitizeWritten written⟩

theorem spacedNamesListed :
    let names : List ColumnName := [.plain "id", .quoted "say \"so\"", .quoted "a, b"]
    let text : Text := " id ,\"say \"\"so\"\"\", \"a, b\""
    ColumnList.Written names text ∧ (∀ c ∈ [Call.delete], c.group "notes" ≠ .select) ∧
      ColumnList.sanitize (some text) = Text.listed (names.map ColumnName.text) ∧
      ((of "notes").calls [.select "title", .select text, .delete]).plan = .ok ⟨.delete, "notes",
        [⟨"DELETE FROM notes RETURNING id, \"say \"\"so\"\"\", \"a, b\"", []⟩], true, false⟩ := by
  intro names text
  have space : ∀ c ∈ [' '], isBlank c := List.forall_mem_singleton.mpr rfl
  have written : ColumnList.Written names text :=
    .next [' '] [' '] rfl space space (.next [] [] rfl nofun nofun (.last [' '] [] rfl space nofun))
  have last : ∀ c ∈ [Call.delete], c.group "notes" ≠ .select := by decide
  have settled : ∀ name ∈ names, ColumnList.Settled name.text := by
    simp only [ColumnList.settledFixed]
    decide
  obtain ⟨-, unchanged⟩ := columnNamesListed "notes" written [.select "title"] last
  exact ⟨written, last, unchanged.mpr settled, by decide⟩

theorem quotedNamesRewritten :
    ColumnList.Written [.quoted "a(b)"] "\"a(b)\"" ∧
      ((of "t").calls [.select "\"a(b)\""]).plan =
        .ok ⟨.select, "t", [⟨"SELECT * FROM t", []⟩], true, false⟩ ∧
      ColumnList.Written [.quoted "a,b"] "\"a,b\"" ∧
      ((of "t").calls [.delete, .select "\"a,b\""]).plan =
        .ok ⟨.delete, "t", [⟨"DELETE FROM t RETURNING \"a, b\"", []⟩], true, false⟩ ∧
      ColumnList.Written [.plain "\u3000a"] "\u3000a" ∧
      ((of "t").calls [.select "\u3000a"]).plan =
        .ok ⟨.select, "t", [⟨"SELECT a FROM t", []⟩], true, false⟩ := by
  have alone {name : ColumnName} (proper : name.Proper) : ColumnList.Written [name] name.text := by
    simpa using ColumnList.Written.last [] [] proper nofun nofun
  exact ⟨alone rfl, by decide, alone rfl, by decide, alone rfl, by decide⟩

end Query
end TableGateway
