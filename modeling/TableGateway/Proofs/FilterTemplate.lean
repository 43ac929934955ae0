import TableGateway.Proofs.Template

/-! Every filter as a template: it is the same one whatever number the filter starts from, has a hole for every
value that the filter binds, and besides the column writes keywords only. -/
namespace TableGateway

namespace Filter
open Template (spaced enclosed marks)

def negation (negated : Bool) : List Text := if negated then ["NOT"] else []

def constant (truth : Bool) : Text := if truth then "1=1" else "1=0"

def literal (b : Bool) : Text := if b then "TRUE" else "FALSE"

def singleTemplate (column : Text) (negated : Bool) (v : Value) : Operator → Template
  | .is =>
    match v with
    | .null => spaced (column :: "IS".toList :: negation negated) (.last (.word "NULL"))
    | .bool b => spaced (column :: "IS".toList :: negation negated) (.last (.word (literal b)))
    | _ =>
      spaced (column :: "IS".toList :: negation (!negated) ++ ["DISTINCT".toList, "FROM".toList])
        (.last .hole)
  | .like => spaced (column :: negation negated ++ [Operator.sql .like]) (.last .hole)
  | .ilike => spaced (column :: negation negated ++ [Operator.sql .ilike]) (.last .hole)
  | operator =>
    if negated then spaced ["NOT"] (enclosed (spaced [column, operator.sql] (.last .hole)))
    else spaced [column, operator.sql] (.last .hole)

def template : Filter → Template
  | ⟨_, _, negated, .list []⟩ => .last (.word (constant negated))
  | ⟨column, _, negated, .list (_ :: more)⟩ =>
    spaced (column :: negation negated ++ ["IN".toList]) (enclosed (marks more.length))
  | ⟨column, operator, negated, .single v⟩ => singleTemplate column negated v operator

def Compared (operator : Operator) : Prop := operator ∉ [Operator.is, .like, .ilike]

theorem renderCompared {operator : Operator} (compared : Compared operator) (column : Text)
    (negated : Bool) (v : Value) (start : Nat) :
    render ⟨column, operator, negated, .single v⟩ start =
      wrapNot negated (column ++ ' ' :: operator.sql ++ ' ' :: placeholder start) := by
  cases operator <;> first | (cases v <;> rfl) | simp [Compared] at compared

theorem templateCompared {operator : Operator} (compared : Compared operator) (column : Text)
    (negated : Bool) (v : Value) :
    template ⟨column, operator, negated, .single v⟩ =
      if negated then spaced ["NOT"] (enclosed (spaced [column, operator.sql] (.last .hole)))
      else spaced [column, operator.sql] (.last .hole) := by
  cases operator <;> first | rfl | simp [Compared] at compared

theorem renderMatched {operator : Operator} (matched : operator = .like ∨ operator = .ilike)
    (column : Text) (negated : Bool) (v : Value) (start : Nat) :
    render ⟨column, operator, negated, .single v⟩ start = column ++ ' ' ::
      (if negated then "NOT ".toList else []) ++ operator.sql ++ ' ' :: placeholder start := by
  obtain rfl | rfl := matched <;> cases v <;> rfl

theorem templateMatched {operator : Operator} (matched : operator = .like ∨ operator = .ilike)
    (column : Text) (negated : Bool) (v : Value) :
    template ⟨column, operator, negated, .single v⟩ =
      spaced (column :: negation negated ++ [operator.sql]) (.last .hole) := by
  obtain rfl | rfl := matched <;> rfl

theorem renderDistinct {v : Value} (other : isLiteral v = false) (column : Text) (negated : Bool)
    (start : Nat) :
    render ⟨column, .is, negated, .single v⟩ start = column ++ " IS ".toList ++
      (if negated then [] else "NOT ".toList) ++ "DISTINCT FROM ".toList ++ placeholder start := by
  cases v <;> first | rfl | simp [isLiteral] at other

theorem templateDistinct {v : Value} (other : isLiteral v = false) (column : Text) (negated : Bool) :
    template ⟨column, .is, negated, .single v⟩ =
      spaced (column :: "IS".toList :: negation (!negated) ++ ["DISTINCT".toList, "FROM".toList])
        (.last .hole) := by
  cases v <;> first | rfl | simp [isLiteral] at other

theorem forms {motive : Filter → Prop}
    (empty : ∀ column operator negated, motive ⟨column, operator, negated, .list []⟩)
    (among : ∀ column operator negated v more, motive ⟨column, operator, negated, .list (v :: more)⟩)
    (null : ∀ column negated, motive ⟨column, .is, negated, .single .null⟩)
    (bool : ∀ column negated b, motive ⟨column, .is, negated, .single (.bool b)⟩)
    (distinct : ∀ column negated v, isLiteral v = false → motive ⟨column, .is, negated, .single v⟩)
    (matched : ∀ column operator negated v, operator = .like ∨ operator = .ilike →
      motive ⟨column, operator, negated, .single v⟩)
    (compared : ∀ column operator negated v, Compared operator →
      motive ⟨column, operator, negated, .single v⟩) (f : Filter) : motive f := by
  obtain ⟨column, operator, negated, operand⟩ := f
  cases operand with
  | list values =>
    cases values with
    | nil => exact empty column operator negated
    | cons v more => exact among column operator negated v more
  | single v =>
    by_cases known : Compared operator
    · exact compared column operator negated v known
    · obtain rfl | pattern : operator = .is ∨ operator = .like ∨ operator = .ilike := by
        simpa [Compared, Classical.or_iff_not_imp_left] using known
      · cases v with
        | null => exact null column negated
        | bool b => exact bool column negated b
        | _ => exact distinct column negated _ rfl
      · exact matched column operator negated v pattern

def keywords : List Text :=
  ["", "WHERE", "AND", "NOT", "1=0", "1=1", "IN", "IS", "NULL", "TRUE", "FALSE", "DISTINCT", "FROM",
    "LIKE", "ILIKE", "=", "!=", ">", ">=", "<", "<=", "@>"]

theorem renderTemplate (f : Filter) (start : Nat) : f.render start = f.template.fill start := by
  induction f using forms with
  | empty column operator negated => cases negated <;> rfl
  | among column operator negated v more =>
    cases negated <;> simp [render, template, negation, Template.fillSpaced, Template.fillUnspaced,
      Template.fillEnclosed, Template.fillMarks]
  | null column negated =>
    cases negated <;> simp [render, template, singleTemplate, negation, Template.fillSpaced,
      Template.fillUnspaced, Template.fill, Atom.fill]
  | bool column negated b =>
    cases b <;> cases negated <;> simp [render, template, singleTemplate, negation, literal,
      Template.fillSpaced, Template.fillUnspaced, Template.fill, Atom.fill]
  | distinct column negated v other =>
    rw [renderDistinct other, templateDistinct other]
    cases negated <;> simp [negation, Template.fillSpaced, Template.fillUnspaced, Template.fill, Atom.fill]
  | matched column operator negated v known =>
    rw [renderMatched known, templateMatched known]
    cases negated <;> simp [negation, Template.fillSpaced, Template.fillUnspaced, Template.fill, Atom.fill]
  | compared column operator negated v known =>
    rw [renderCompared known, templateCompared known]
    cases negated <;> simp [wrapNot, Template.fillSpaced, Template.fillUnspaced,
      Template.fillEnclosed, Template.fill, Atom.fill]

theorem holesTemplate (f : Filter) : f.template.holes = f.bound.length := by
  induction f using forms with
  | empty column operator negated => rfl
  | among column operator negated v more =>
    simp [template, bound, Template.holesSpaced, Template.holesEnclosed, Template.holesMarks]
  | null column negated => cases negated <;> rfl
  | bool column negated b => cases negated <;> rfl
  | distinct column negated v other =>
    rw [templateDistinct other, Template.holesSpaced]
    cases v <;> first | rfl | simp [isLiteral] at other
  | matched column operator negated v known =>
    rw [templateMatched known, Template.holesSpaced]
    obtain rfl | rfl := known <;> cases v <;> rfl
  | compared column operator negated v known =>
    have one : (bound ⟨column, operator, negated, .single v⟩).length = 1 := by
      cases operator <;> first | (cases v <;> rfl) | simp [Compared] at known
    rw [templateCompared known, one]
    cases negated <;> rfl

theorem everyHeaded {P : Text → Prop} {column : Text} (head : P column) (known : ∀ w ∈ keywords, P w)
    {ws : List Text} {t : Template} (inside : ws ++ t.words ⊆ keywords) :
    ∀ w ∈ (spaced (column :: ws) t).words, P w := by
  rw [Template.wordsSpaced]
  exact List.forall_mem_cons.mpr ⟨head, fun w member => known w (inside member)⟩

theorem everyWord {P : Text → Prop} {f : Filter} (head : P f.column) (known : ∀ w ∈ keywords, P w) :
    ∀ w ∈ f.template.words, P w := by
  have none : P [] := known [] (by decide)
  induction f using forms with
  | empty column operator negated =>
    have inside : ∀ b, (Template.last (.word (constant b))).words ⊆ keywords := by decide
    exact fun w member => known w (inside negated member)
  | among column operator negated v more =>
    have inside : ∀ b, negation b ++ ["IN".toList] ⊆ keywords := by decide
    have marked : ∀ w ∈ (marks more.length).words, P w := fun w member =>
      Template.wordsMarks more.length w member ▸ none
    exact Template.everySpaced
      (List.forall_mem_cons.mpr ⟨head, fun w member => known w (inside negated member)⟩)
      (Template.everyEnclosed none marked)
  | null column negated =>
    have inside : ∀ b, ("IS".toList :: negation b) ++ ["NULL".toList] ⊆ keywords := by decide
    exact everyHeaded head known (inside negated)
  | bool column negated b =>
    have inside : ∀ b truth, ("IS".toList :: negation b) ++ [literal truth] ⊆ keywords := by decide
    exact everyHeaded head known (inside negated b)
  | distinct column negated v other =>
    have inside : ∀ b, ("IS".toList :: negation b ++ ["DISTINCT".toList, "FROM".toList]) ++ [] ⊆
      keywords := by decide
    rw [templateDistinct other]
    exact everyHeaded head known (inside (!negated))
  | matched column operator negated v pattern =>
    have inside : (negation negated ++ [operator.sql]) ++ [] ⊆ keywords := by
      obtain rfl | rfl := pattern <;> cases negated <;> decide
    rw [templateMatched pattern]
    exact everyHeaded head known inside
  | compared column operator negated v plain =>
    have inside : [operator.sql] ++ [] ⊆ keywords := by cases operator <;> decide
    have positive := everyHeaded (t := .last .hole) head known inside
    rw [templateCompared plain]
    cases negated with
    | false => exact positive
    | true =>
      have not : ∀ w ∈ ["NOT".toList], P w := List.forall_mem_singleton.mpr (known _ (by decide))
      exact Template.everySpaced not (Template.everyEnclosed none positive)

end Filter
end TableGateway
