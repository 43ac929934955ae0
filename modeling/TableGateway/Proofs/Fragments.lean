import TableGateway.Proofs.Lexeme
import TableGateway.Proofs.Numbering

/-! Free fragments in updates. A fragment that is read as closed lexemes, and is scanned the way it is read, is
in the text of an update as it is in that of a select. One that is scanned in another way may have a constant
changed. -/
namespace TableGateway
open Placeholder (Quiet put shift shiftFrom)

namespace Lexeme

def Legible (t : Text) : Prop :=
  ∃ lexemes, Reads lexemes t ∧ (∀ l ∈ lexemes, l.Clear) ∧ lexemes.IsChain fun a b => a.spaced b

theorem quietTrim {t : Text} (quiet : Quiet t) : Quiet (Text.trim t) := by
  have kept : ∀ u : Text, (u.dropWhile isBlank).count '\'' = u.count '\'' := by
    intro u
    induction u with
    | nil => rfl
    | cons c u ih =>
      by_cases blank : isBlank c
      · have other : c ≠ '\'' := by rintro rfl; exact absurd blank (by decide)
        simp [blank, ih, other]
      · simp [blank]
  have quotes : (Text.trim t).count '\'' = t.count '\'' := by
    simp [Text.trim, Text.trimEnd, Text.trimStart, kept]
  exact ⟨fun member => quiet.1 (Text.memTrim member), quotes ▸ quiet.2⟩

theorem shiftFromTrimmed (offset : Nat) {t : Text} (copied : Quiet t ∨ Legible t) (rest : Text) :
    shiftFrom offset false (Text.trim t ++ ')' :: rest) =
      put (Text.trim t ++ [')']) (shiftFrom offset false rest) := by
  have quote : ')' ≠ '\'' ∧ ')' ≠ '$' := by decide
  rcases copied with quiet | ⟨lexemes, ⟨rfl, proper, -⟩, clear, spaced⟩
  · exact Placeholder.shiftFromQuiet (quietTrim quiet) quote.1 quote.2 offset false rest
  · have inside := trimmedInfix lexemes
    have between := spaced.infix inside
    rw [trimText proper]
    exact shiftFromLexemes offset (fun l member => proper l (inside.subset member))
      (fun l member => clear l (inside.subset member)) between (fun _ _ _ => rfl) quote.1 quote.2 rest

end Lexeme

namespace WhereClause
open Lexeme (Legible)

theorem shiftTerm (offset : Nat) {before : Text} (quiet : Quiet before) {t : Text}
    (copied : Quiet t ∨ Legible t) (rest : Text) :
    shiftFrom offset false (before ++ ('(' :: Text.trim t ++ [')'] ++ rest)) =
      put (before ++ ('(' :: Text.trim t ++ [')'])) (shiftFrom offset false rest) := by
  have quote : '(' ≠ '\'' ∧ '(' ≠ '$' := by decide
  have outer : Placeholder.isName '(' = false := by decide
  simp only [List.cons_append, List.append_assoc, List.nil_append]
  rw [Placeholder.shiftFromQuiet quiet quote.1 quote.2, outer, Lexeme.shiftFromTrimmed offset copied,
    Placeholder.putPut, List.append_assoc, List.singleton_append]

theorem termsCopied {fragments : List Text} (copied : ∀ t ∈ fragments, Quiet t ∨ Legible t) :
    ∀ term ∈ fragmentTerms fragments, ∃ t, term = '(' :: Text.trim t ++ [')'] ∧ (Quiet t ∨ Legible t) := by
  intro term member
  obtain ⟨t, kept, rfl⟩ := List.mem_map.mp member
  exact ⟨t, rfl, copied t (List.mem_filter.mp kept).1⟩

variable {terms : List Text}

theorem shiftTerms (offset : Nat)
    (copied : ∀ term ∈ terms, ∃ t, term = '(' :: Text.trim t ++ [')'] ∧ (Quiet t ∨ Legible t)) :
    shiftFrom offset false (terms.flatMap (" AND ".toList ++ ·)) = some (terms.flatMap (" AND ".toList ++ ·)) := by
  induction terms with
  | nil => exact Placeholder.shiftFromNil offset false
  | cons term terms ih =>
    obtain ⟨⟨t, rfl, own⟩, others⟩ := List.forall_mem_cons.mp copied
    rw [List.flatMap_cons, List.append_assoc, shiftTerm offset (by decide) own, ih others, Placeholder.putSome,
      List.append_assoc]

theorem shiftConjunction (offset : Nat)
    (copied : ∀ term ∈ terms, ∃ t, term = '(' :: Text.trim t ++ [')'] ∧ (Quiet t ∨ Legible t)) :
    shiftFrom offset false (conjunction terms) = some (conjunction terms) := by
  cases terms with
  | nil => exact Placeholder.shiftFromNil offset false
  | cons term terms =>
    obtain ⟨⟨t, rfl, own⟩, others⟩ := List.forall_mem_cons.mp copied
    have whole : conjunction (('(' :: Text.trim t ++ [')']) :: terms) = "WHERE ".toList ++
        ('(' :: Text.trim t ++ [')'] ++ terms.flatMap (" AND ".toList ++ ·)) := by
      rw [conjunction, intercalateFlat]
      rfl
    rw [whole, shiftTerm offset (by decide) own, shiftTerms offset others, Placeholder.putSome, List.append_assoc]

theorem shiftLegibleCondition {filters : List Filter} {fragments : List Text}
    (quiet : ∀ f ∈ filters, Quiet f.column)
    (copied : (∀ t ∈ fragments, Quiet t ∨ Legible t) ∨ ∀ t ∈ fragments, '$' ∉ t)
    {start offset : Nat} (nonzero : offset ≠ 0)
    (fits : start + (filters.flatMap Filter.bound).length + offset ≤ 2 ^ 64) :
    shift offset (of filters fragments start).sql = some (of filters fragments (start + offset)).sql := by
  rcases copied with read | plain
  · cases filters with
    | nil =>
      rw [Placeholder.shiftAsFrom nonzero]
      exact shiftConjunction offset (termsCopied read)
    | cons first rest =>
      rw [shiftCondition quiet nonzero fits, sqlSplit first rest fragments, Placeholder.shiftAsFrom nonzero,
        fragmentTail, shiftTerms offset (termsCopied read), Placeholder.putSome]
  · exact shiftPlainCondition quiet plain nonzero fits

theorem infixConjunction {term : Text} {terms : List Text} (member : term ∈ terms) :
    term <:+: conjunction terms := by
  obtain ⟨before, after, rfl⟩ := List.append_of_mem member
  have filled : (before ++ term :: after).isEmpty = false := by simp
  have inside : term <:+: (" AND ".toList).intercalate (before ++ term :: after) := by
    cases before with
    | nil =>
      rw [List.nil_append, intercalateFlat]
      exact (List.prefix_append _ _).isInfix
    | cons first before =>
      rw [List.cons_append, intercalateFlat, List.flatMap_append, List.flatMap_cons]
      exact ⟨first ++ before.flatMap (" AND ".toList ++ ·) ++ " AND ".toList,
        after.flatMap (" AND ".toList ++ ·), by simp⟩
  rw [conjunction, filled]
  exact inside.trans (List.suffix_append _ _).isInfix

theorem infixAppended {t : Text} {fragments : List Text} (member : t ∈ fragments)
    (filled : Text.trim t ≠ []) (filters : List Filter) (start : Nat) :
    '(' :: Text.trim t ++ [')'] <:+: Query.appended (of filters fragments start) := by
  have kept : (!(Text.trim t).isEmpty) = true := by simpa using filled
  have term : '(' :: Text.trim t ++ [')'] ∈ fragmentTerms fragments :=
    List.mem_map.mpr ⟨t, List.mem_filter.mpr ⟨member, kept⟩, rfl⟩
  have written : (of filters fragments start).isEmpty = false := by
    have some : (fragmentTerms fragments).isEmpty = false := List.isEmpty_eq_false_iff_exists_mem.mpr ⟨_, term⟩
    rw [emptySql, some, Bool.and_false]
  have inside := infixConjunction (List.mem_append_right (renderFilters start filters) term)
  rw [Query.appended, written]
  exact inside.trans (List.suffix_cons ' ' _).isInfix

end WhereClause

namespace Query
open Lexeme (Legible)

theorem updateKeepsFragments {q : Query} {fields : Record} (used : q.misuse = none)
    (noInsert : q.insert = none) (payload : q.update = some fields) (named : fields ≠ [])
    (quiet : ∀ f ∈ q.filters, Quiet f.column)
    (copied : (∀ t ∈ q.fragments, Quiet t ∨ Legible t) ∨ ∀ t ∈ q.fragments, '$' ∉ t)
    (fits : fields.length + (q.filters.flatMap Filter.bound).length < 2 ^ 64) :
    let texts (q : Query) := q.plan.map fun p => p.statements.map Statement.sql
    ∃ update select : Text, texts q = .ok [update] ∧
      texts { q with update := none, delete := false } = .ok [select] ∧
      update = updateHead q fields ++ appended (.of q.filters q.fragments (fields.length + 1)) ++
        q.returningClause ∧
      select = "SELECT ".toList ++ ColumnList.sanitize q.columns ++ " FROM ".toList ++ q.table ++
        appended (.of q.filters q.fragments 1) ++ q.selectTail ∧
      ∀ t ∈ q.fragments, Text.trim t ≠ [] →
        '(' :: Text.trim t ++ [')'] <:+: update ∧ '(' :: Text.trim t ++ [')'] <:+: select := by
  intro texts
  have nonzero : fields.length ≠ 0 := fun zero => named (List.eq_nil_of_length_eq_zero zero)
  have room : 1 + (q.filters.flatMap Filter.bound).length + fields.length ≤ 2 ^ 64 := by omega
  have shifted := WhereClause.shiftLegibleCondition quiet copied nonzero room
  have small : 1 + (q.filters.flatMap Filter.bound).length < 2 ^ 64 := by omega
  have behind : (if q.clause.isEmpty then [] else
      ' ' :: (WhereClause.of q.filters q.fragments (1 + fields.length)).sql) =
      appended (.of q.filters q.fragments (fields.length + 1)) := by
    rw [clause, Nat.add_comm 1, appended, WhereClause.emptySql, WhereClause.emptySql]
  have updated : texts q = .ok [updateHead q fields ++
      appended (.of q.filters q.fragments (fields.length + 1)) ++ q.returningClause] := by
    have planned := planUpdate used noInsert payload named small
    rw [clause, shifted] at planned
    simp only [texts, planned, ← behind]
    rfl
  have selected : texts { q with update := none, delete := false } = .ok ["SELECT ".toList ++
      ColumnList.sanitize q.columns ++ " FROM ".toList ++ q.table ++
      appended (.of q.filters q.fragments 1) ++ q.selectTail] := by
    have parts := selectParts { q with update := none, delete := false } q.clause
    have planned := planSelect (q := { q with update := none, delete := false }) used noInsert rfl rfl small
    simp only [texts, planned]
    exact congrArg (fun sql => Except.ok [sql]) parts
  refine ⟨_, _, updated, selected, rfl, rfl, fun t member filled => ⟨?_, ?_⟩⟩
  · have inside := WhereClause.infixAppended member filled q.filters (fields.length + 1)
    exact inside.trans ⟨updateHead q fields, q.returningClause, rfl⟩
  · have inside := WhereClause.infixAppended member filled q.filters 1
    exact inside.trans ⟨_, q.selectTail, rfl⟩

theorem everyQuotingKept :
    let fragment : Text := "n = 'it''s $1' OR b = $t$ $2 $t$ OR e = E'\\n$3' OR \"cost ($)\" > 0 ".toList
    let q : Query :=
      { table := "notes".toList
        filters := [⟨"id".toList, .eq, false, .single (.int 7)⟩]
        fragments := [fragment]
        update := some [("done".toList, .bool true)] }
    q.plan.map (fun p => p.statements.map Statement.sql) =
      .ok ["UPDATE notes SET done = $1 WHERE id = $2 AND (".toList ++ Text.trim fragment ++ [')']] := by
  intro fragment q
  let words (t : String) : List Lexeme := t.toList.map .char
  let lexemes := words "n = " ++ .literal "it's $1".toList :: words " OR b = " ++
    .dollar "t".toList " $2 ".toList :: words " OR e = " ++
    .escaped 'E' [.slash 'n', .plain '$', .plain '3'] :: words " OR " ++
    .name "cost ($)".toList :: words " > 0 "
  have reads : Lexeme.Reads lexemes fragment := ⟨rfl, by decide, by decide⟩
  have legible : Legible fragment := ⟨lexemes, reads, by decide, by decide⟩
  have quiet : ∀ f ∈ q.filters, Quiet f.column := List.forall_mem_singleton.mpr (by decide)
  have copied : ∀ t ∈ q.fragments, Quiet t ∨ Legible t := List.forall_mem_singleton.mpr (.inr legible)
  obtain ⟨update, _, texts, -, same, -⟩ :=
    updateKeepsFragments (q := q) rfl rfl rfl nofun quiet (.inl copied) (by decide)
  rw [same] at texts
  exact texts

theorem quotedSignsRenumbered :
    let texts (fragment : Text) := (Query.plan
      { table := "notes".toList
        fragments := [fragment]
        update := some [("done".toList, .bool true)] }).map fun p => p.statements.map Statement.sql
    let words (t : String) : List Lexeme := t.toList.map .char
    (Lexeme.Reads (words "note = " ++ [.escaped 'E' [.plain 'i', .plain 't', .slash '\'', .plain 's',
        .plain ' ', .plain '$', .plain '1']]) "note = E'it\\'s $1'".toList ∧
      texts "note = E'it\\'s $1'".toList =
        .ok ["UPDATE notes SET done = $1 WHERE (note = E'it\\'s $2')".toList]) ∧
    (Lexeme.Reads (.name "cost $1".toList :: words " > 0") "\"cost $1\" > 0".toList ∧
      texts "\"cost $1\" > 0".toList =
        .ok ["UPDATE notes SET done = $1 WHERE (\"cost $2\" > 0)".toList]) ∧
    Lexeme.Reads (words "note = " ++ [.dollar "é".toList " $1 ".toList]) "note = $é$ $1 $é$".toList ∧
      texts "note = $é$ $1 $é$".toList =
        .ok ["UPDATE notes SET done = $1 WHERE (note = $é$ $2 $é$)".toList] := by
  intro texts words
  refine ⟨⟨⟨rfl, by decide, by decide⟩, ?_⟩, ⟨⟨rfl, by decide, by decide⟩, ?_⟩,
    ⟨rfl, by decide, by decide⟩, ?_⟩
  · decide +kernel
  · decide +kernel
  · decide +kernel

end Query
end TableGateway
