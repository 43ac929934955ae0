import Mathlib.Data.List.Chain
import TableGateway.Proofs.Pieces

/-! Free text as the server takes it apart, into single characters, literals, quoted names and dollar-quoted
texts, all of them closed and none a placeholder. Scanning for placeholders copies such text as long as no
literal has an escaped quote in it, no name has quotes or dollar signs at the start of a word, and dollar-quoted
texts have plain tags and stand apart. -/
namespace TableGateway
open Placeholder (isName literal through tag? put shiftFrom TagName)

inductive Escape
  | plain (c : Char)
  | doubled
  | slash (c : Char)
  deriving DecidableEq, Repr

namespace Escape

def text : Escape → Text
  | .plain c => [c]
  | .doubled => ['\'', '\'']
  | .slash c => ['\\', c]

def Proper : Escape → Prop
  | .plain c => c ≠ '\'' ∧ c ≠ '\\'
  | _ => True

instance (e : Escape) : Decidable e.Proper :=
  match e with
  | .plain _ => inferInstanceAs (Decidable (_ ∧ _))
  | .doubled => inferInstanceAs (Decidable True)
  | .slash _ => inferInstanceAs (Decidable True)

end Escape

inductive Lexeme
  | char (c : Char)
  | literal (content : Text)
  | escaped (marker : Char) (items : List Escape)
  | name (content : Text)
  | dollar (tag body : Text)
  deriving DecidableEq, Repr

namespace Lexeme

def doubled (mark : Char) (t : Text) : Text := t.flatMap fun c => if c = mark then [mark, mark] else [c]

def delimiter (tag : Text) : Text := '$' :: tag ++ ['$']

def text : Lexeme → Text
  | .char c => [c]
  | .literal content => '\'' :: doubled '\'' content ++ ['\'']
  | .escaped marker items => marker :: '\'' :: items.flatMap Escape.text ++ ['\'']
  | .name content => '"' :: doubled '"' content ++ ['"']
  | .dollar tag body => delimiter tag ++ body ++ delimiter tag

def Proper : Lexeme → Prop
  | .char c => c ∉ ['\'', '"', '$']
  | .escaped marker items => marker ∈ ['E', 'e'] ∧ ∀ item ∈ items, item.Proper
  | .dollar tag body => (tag = [] ∨ Text.Identifier tag) ∧
    ∀ k < body.length, ¬ delimiter tag <+: (body ++ delimiter tag).drop k
  | _ => True

instance (l : Lexeme) : Decidable l.Proper :=
  match l with
  | .char _ => inferInstanceAs (Decidable (_ ∉ _))
  | .literal _ => inferInstanceAs (Decidable True)
  | .escaped _ _ => inferInstanceAs (Decidable (_ ∧ _))
  | .name _ => inferInstanceAs (Decidable True)
  | .dollar _ _ => inferInstanceAs (Decidable (_ ∧ _))

def continues : Lexeme → Lexeme → Bool
  | .literal _, .literal _ => true
  | .escaped _ _, .literal _ => true
  | .char c, .dollar _ _ => Text.isLetter c
  | _, _ => false

structure Reads (lexemes : List Lexeme) (t : Text) : Prop where
  written : lexemes.flatMap text = t
  proper : ∀ l ∈ lexemes, l.Proper
  apart : lexemes.IsChain fun a b => a.continues b = false

def Calm (inName : Bool) : Text → Prop
  | [] => True
  | c :: t => c ≠ '\'' ∧ (c = '$' → inName ∨ t.head?.any isName = false) ∧ Calm (isName c) t

instance calmDecidable (inName : Bool) (t : Text) : Decidable (Calm inName t) :=
  match t with
  | [] => inferInstanceAs (Decidable True)
  | c :: t =>
    have := calmDecidable (isName c) t
    inferInstanceAs (Decidable (_ ∧ _ ∧ _))

def Clear : Lexeme → Prop
  | .escaped _ items => .slash '\'' ∉ items
  | .name content => Calm false (doubled '"' content)
  | .dollar tag _ => tag.all fun c => c.toNat < 128
  | _ => True

instance (l : Lexeme) : Decidable l.Clear :=
  match l with
  | .char _ => inferInstanceAs (Decidable True)
  | .literal _ => inferInstanceAs (Decidable True)
  | .escaped _ items => inferInstanceAs (Decidable (_ ∉ items))
  | .name content => inferInstanceAs (Decidable (Calm false (doubled '"' content)))
  | .dollar tag _ => inferInstanceAs (Decidable (tag.all _ = true))

def leaves : Lexeme → Bool
  | .char c => isName c
  | .dollar _ _ => true
  | _ => false

def isDollar : Lexeme → Bool
  | .dollar _ _ => true
  | _ => false

inductive Paired : Text → Prop
  | nil : Paired []
  | char {c : Char} {t : Text} (other : c ≠ '\'') (rest : Paired t) : Paired (c :: t)
  | doubled {t : Text} (rest : Paired t) : Paired ('\'' :: '\'' :: t)

theorem Paired.literal {t : Text} (paired : Paired t) (rest : Text) :
    Placeholder.literal (t ++ rest) = (t ++ (Placeholder.literal rest).1, (Placeholder.literal rest).2) := by
  induction paired with
  | nil => rfl
  | char other _ ih => simp [Placeholder.literal, other, ih]
  | doubled _ ih => simp [Placeholder.literal, ih]

theorem pairedDoubled (content : Text) : Paired (doubled '\'' content) := by
  induction content with
  | nil => exact .nil
  | cons c content ih =>
    rw [doubled, List.flatMap_cons]
    by_cases quote : c = '\''
    · rw [if_pos quote]
      exact .doubled ih
    · rw [if_neg quote]
      exact .char quote ih

theorem pairedEscapes {items : List Escape} (proper : ∀ item ∈ items, item.Proper)
    (clear : .slash '\'' ∉ items) : Paired (items.flatMap Escape.text) := by
  induction items with
  | nil => exact .nil
  | cons item items ih =>
    obtain ⟨here, later⟩ := List.forall_mem_cons.mp proper
    have rest := ih later fun member => clear (List.mem_cons_of_mem _ member)
    cases item with
    | plain c => exact .char here.1 rest
    | doubled => exact .doubled rest
    | slash c =>
      have other : c ≠ '\'' := fun same => clear (same ▸ List.mem_cons_self)
      exact .char (by decide) (.char other rest)

theorem shiftFromPaired (offset : Nat) (inName : Bool) {t : Text} (paired : Paired t) (rest : Text) :
    shiftFrom offset inName ('\'' :: t ++ '\'' :: rest) =
      put ('\'' :: t ++ ['\'']) (shiftFrom offset false rest) := by
  rw [List.cons_append, Placeholder.shiftFromQuote, paired.literal]
  cases rest with
  | nil => simp [Placeholder.literal]
  | cons c rest =>
    by_cases quote : c = '\''
    · subst quote
      rw [Placeholder.shiftFromQuote, Placeholder.putPut]
      simp [Placeholder.literal]
    · simp [Placeholder.literal, quote]

theorem tagWordless {t : Text} (wordless : t.head?.any isName = false) : tag? t = none := by
  cases t with
  | nil => rfl
  | cons d t =>
    simp [isName, Char.isAlphanum] at wordless
    simp [tag?, wordless]

theorem shiftFromWordless (offset : Nat) {t : Text} (wordless : t.head?.any isName = false) :
    shiftFrom offset false ('$' :: t) = put ['$'] (shiftFrom offset true t) := by
  have digits : (Text.spanDigits t).1 = [] := by
    cases t with
    | nil => rfl
    | cons d t =>
      simp [isName, Char.isAlphanum] at wordless
      simp [Text.spanDigits, wordless]
  rw [Placeholder.shiftFromCons]
  simp [Placeholder.piece, digits, tagWordless wordless, Placeholder.Piece.shift]

theorem shiftFromWithin (offset : Nat) (t : Text) :
    shiftFrom offset true ('$' :: t) = put ['$'] (shiftFrom offset true t) := by
  rw [Placeholder.shiftFromCons]
  simp [Placeholder.piece, Placeholder.Piece.shift, isName]

theorem shiftFromCalm (offset : Nat) {inName : Bool} {t : Text} (calm : Calm inName t) {stop : Char}
    (quote : stop ≠ '\'') (plain : isName stop = false) (rest : Text) :
    shiftFrom offset inName (t ++ stop :: rest) = put (t ++ [stop]) (shiftFrom offset false rest) := by
  induction t generalizing inName with
  | nil =>
    have dollar : stop ≠ '$' := by rintro rfl; contradiction
    rw [List.nil_append, Placeholder.shiftFromPlain quote dollar, plain]
    rfl
  | cons c t ih =>
    obtain ⟨other, free, later⟩ := calm
    by_cases dollar : c = '$'
    · subst dollar
      have later : Calm true t := later
      cases inName with
      | true => rw [List.cons_append, shiftFromWithin, ih later, Placeholder.putCons, List.cons_append]
      | false =>
        have wordless : (t ++ stop :: rest).head?.any isName = false := by
          cases t with
          | nil => simpa using plain
          | cons d t => exact (free rfl).resolve_left (by simp)
        rw [List.cons_append, shiftFromWordless offset wordless, ih later, Placeholder.putCons, List.cons_append]
    · rw [List.cons_append, Placeholder.shiftFromPlain other dollar, ih later, Placeholder.putCons,
        List.cons_append]

theorem plainLetter {c : Char} (small : c.toNat < 128) : Text.isLetter c = (c.isAlpha || c = '_') := by
  have low : ¬ 127 < c.toNat := by omega
  simp [Text.isLetter, low]

theorem plainWord {tag : Text} (name : Text.Identifier tag) (plain : tag.all fun c => c.toNat < 128) :
    ∀ c ∈ tag, (c.isAlphanum || c = '_') = true := by
  intro c member
  have small : c.toNat < 128 := by simpa using List.all_eq_true.mp plain c member
  rcases Text.Identifier.characters name c member with letter | digit
  · rw [plainLetter small] at letter
    simp only [Char.isAlphanum, Bool.or_eq_true] at letter ⊢
    exact letter.imp_left .inl
  · simp [Char.isAlphanum, digit]

theorem plainTag {tag : Text} (word : tag = [] ∨ Text.Identifier tag) (plain : tag.all fun c => c.toNat < 128) :
    TagName tag := by
  rcases word with rfl | name
  · exact ⟨nofun, nofun⟩
  · refine ⟨fun c member => ?_, plainWord name plain⟩
    obtain ⟨t, rfl⟩ := List.head?_eq_some_iff.mp member
    have small : c.toNat < 128 := by simpa using List.all_eq_true.mp plain c List.mem_cons_self
    rw [← plainLetter small]
    exact Text.Identifier.first name

theorem throughBody {mark body : Text} (filled : mark ≠ [])
    (later : ∀ k < body.length, ¬ mark <+: (body ++ mark).drop k) (rest : Text) :
    through mark (body ++ (mark ++ rest)) = (body ++ mark, rest) := by
  induction body with
  | nil =>
    obtain ⟨c, mark, rfl⟩ := List.exists_cons_of_ne_nil filled
    have starts : (c :: mark).isPrefixOf (c :: (mark ++ rest)) := by simp
    simp only [List.nil_append, List.cons_append, through, starts, if_true]
    simp
  | cons d body ih =>
    have here : ¬ mark <+: d :: (body ++ mark) := later 0 (Nat.zero_lt_succ _)
    have after := ih fun k within => later (k + 1) (Nat.succ_lt_succ within)
    have other : ¬ mark.isPrefixOf (d :: (body ++ (mark ++ rest))) := by
      rw [List.isPrefixOf_iff_prefix]
      intro starts
      refine here (List.prefix_of_prefix_length_le starts ⟨rest, by simp⟩ ?_)
      simp
      omega
    simp only [List.cons_append, through, other, after]
    simp

theorem shiftFromDollar (offset : Nat) {tag body : Text} (proper : (dollar tag body).Proper)
    (plain : tag.all fun c => c.toNat < 128) (rest : Text) :
    shiftFrom offset false ((dollar tag body).text ++ rest) =
      put (dollar tag body).text (shiftFrom offset true rest) := by
  obtain ⟨word, closed⟩ := proper
  have mark : delimiter tag ≠ [] := List.cons_ne_nil _ _
  have taken := Placeholder.Takes.dollar (plainTag word plain) (body ++ (delimiter tag ++ rest))
  rw [show '$' :: (tag ++ ['$']) = delimiter tag from rfl, throughBody mark closed rest] at taken
  have shifted := Placeholder.shiftFromTaken taken offset
  simpa [text, delimiter, Placeholder.Piece.shift] using shifted

def spaced : Lexeme → Lexeme → Bool
  | a, .dollar _ _ => !a.leaves
  | _, _ => true

theorem markers {c : Char} (marked : c ∈ ['E', 'e']) : c = 'E' ∨ c = 'e' := by
  simpa using marked

theorem shiftFromLexeme (offset : Nat) {l : Lexeme} (proper : l.Proper) (clear : l.Clear) {inName : Bool}
    (outside : l.isDollar → inName = false) (rest : Text) :
    shiftFrom offset inName (l.text ++ rest) = put l.text (shiftFrom offset l.leaves rest) := by
  cases l with
  | char c =>
    have other : c ≠ '\'' ∧ c ≠ '"' ∧ c ≠ '$' := by simpa [Proper] using proper
    exact Placeholder.shiftFromPlain other.1 other.2.2 offset inName rest
  | literal content =>
    have copied := shiftFromPaired offset inName (pairedDoubled content) rest
    simpa [text, leaves] using copied
  | escaped marker items =>
    obtain ⟨marked, items⟩ := proper
    obtain ⟨quote, sign⟩ : marker ≠ '\'' ∧ marker ≠ '$' := by
      obtain rfl | rfl := markers marked <;> decide
    have copied := shiftFromPaired offset (isName marker) (pairedEscapes items clear) rest
    rw [List.cons_append] at copied
    simp only [text, leaves, List.cons_append, List.append_assoc, List.nil_append]
    rw [Placeholder.shiftFromPlain quote sign, copied, Placeholder.putCons, List.cons_append]
  | name content =>
    have quote : '"' ≠ '\'' ∧ '"' ≠ '$' := by decide
    have outer : isName '"' = false := by decide
    have copied := shiftFromCalm offset clear quote.1 outer rest
    simp only [text, leaves, List.cons_append, List.append_assoc, List.nil_append]
    rw [Placeholder.shiftFromPlain quote.1 quote.2, outer, copied, Placeholder.putCons]
  | dollar tag body =>
    rw [outside rfl]
    exact shiftFromDollar offset proper clear rest

theorem shiftFromLexemes (offset : Nat) {lexemes : List Lexeme} (proper : ∀ l ∈ lexemes, l.Proper)
    (clear : ∀ l ∈ lexemes, l.Clear) (spaced : lexemes.IsChain fun a b => a.spaced b) {inName : Bool}
    (outside : ∀ l ∈ lexemes.head?, l.isDollar → inName = false) {stop : Char} (quote : stop ≠ '\'')
    (sign : stop ≠ '$') (rest : Text) :
    shiftFrom offset inName (lexemes.flatMap text ++ stop :: rest) =
      put (lexemes.flatMap text ++ [stop]) (shiftFrom offset (isName stop) rest) := by
  -- The state that one lexeme leaves is the one that the next has to be spaced from.
  induction lexemes generalizing inName with
  | nil => exact Placeholder.shiftFromPlain quote sign offset inName rest
  | cons l lexemes ih =>
    obtain ⟨here, later⟩ := List.forall_mem_cons.mp proper
    obtain ⟨plain, others⟩ := List.forall_mem_cons.mp clear
    obtain ⟨parted, spaced⟩ := List.isChain_cons.mp spaced
    have after : ∀ m ∈ lexemes.head?, m.isDollar → l.leaves = false := by
      intro m member dollar
      have between := parted m member
      cases m <;> first | contradiction | simpa [Lexeme.spaced] using between
    have copied := shiftFromLexeme offset here plain (outside l rfl) (lexemes.flatMap text ++ stop :: rest)
    rw [List.flatMap_cons, List.append_assoc, copied, ih later others spaced after, Placeholder.putPut,
      List.append_assoc]

def isSpace : Lexeme → Bool
  | .char c => isBlank c
  | _ => false

def trimmed (lexemes : List Lexeme) : List Lexeme :=
  ((lexemes.dropWhile isSpace).reverse.dropWhile isSpace).reverse

theorem dropFlat {α β : Type} {f : α → List β} {p : β → Bool} {q : α → Bool} {as : List α}
    (dropped : ∀ a ∈ as, q a → ∃ b, f a = [b] ∧ p b)
    (kept : ∀ a ∈ as, ¬ q a → ∃ b bs, f a = b :: bs ∧ ¬ p b) :
    (as.flatMap f).dropWhile p = (as.dropWhile q).flatMap f := by
  induction as with
  | nil => rfl
  | cons a as ih =>
    obtain ⟨drop, drops⟩ := List.forall_mem_cons.mp dropped
    obtain ⟨keep, keeps⟩ := List.forall_mem_cons.mp kept
    by_cases out : q a
    · obtain ⟨b, single, blank⟩ := drop out
      simp [single, blank, out, ih drops keeps]
    · obtain ⟨b, bs, starts, solid⟩ := keep out
      simp [starts, solid, out]

theorem spaceText {l : Lexeme} (space : l.isSpace) : ∃ c, l.text = [c] ∧ isBlank c := by
  cases l with
  | char c => exact ⟨c, rfl, space⟩
  | _ => contradiction

theorem solidStart {l : Lexeme} (proper : l.Proper) (solid : ¬ l.isSpace) :
    ∃ c t, l.text = c :: t ∧ ¬ isBlank c := by
  cases l with
  | char c => exact ⟨c, [], rfl, solid⟩
  | literal content => exact ⟨_, _, rfl, by decide⟩
  | escaped marker items =>
    refine ⟨marker, _, rfl, ?_⟩
    obtain rfl | rfl := markers proper.1 <;> decide
  | name content => exact ⟨_, _, rfl, by decide⟩
  | dollar tag body => exact ⟨_, _, rfl, by decide⟩

theorem solidEnd {l : Lexeme} (solid : ¬ l.isSpace) : ∃ c t, l.text.reverse = c :: t ∧ ¬ isBlank c := by
  cases l with
  | char c => exact ⟨c, [], rfl, solid⟩
  | literal content => exact ⟨'\'', _, List.reverse_concat, by decide⟩
  | escaped marker items => exact ⟨'\'', _, List.reverse_concat, by decide⟩
  | name content => exact ⟨'"', _, List.reverse_concat, by decide⟩
  | dollar tag body => exact ⟨'$', _, by simp [text, delimiter]; rfl, by decide⟩

theorem trimText {lexemes : List Lexeme} (proper : ∀ l ∈ lexemes, l.Proper) :
    Text.trim (lexemes.flatMap text) = (trimmed lexemes).flatMap text := by
  have front : Text.trimStart (lexemes.flatMap text) = (lexemes.dropWhile isSpace).flatMap text :=
    dropFlat (fun _ _ space => spaceText space) fun l member solid => solidStart (proper l member) solid
  have back : ∀ ls : List Lexeme, Text.trimEnd (ls.flatMap text) =
      (ls.reverse.dropWhile isSpace).reverse.flatMap text := by
    intro ls
    have dropped : (ls.reverse.flatMap (List.reverse ∘ text)).dropWhile isBlank =
        (ls.reverse.dropWhile isSpace).flatMap (List.reverse ∘ text) := by
      refine dropFlat (fun l _ space => ?_) fun l _ solid => solidEnd solid
      obtain ⟨c, single, blank⟩ := spaceText space
      exact ⟨c, by simp [single], blank⟩
    rw [Text.trimEnd, List.reverse_flatMap, dropped, List.reverse_flatMap]
    simp [Function.comp_def]
  rw [Text.trim, front, back]
  rfl

theorem trimmedInfix (lexemes : List Lexeme) : trimmed lexemes <:+: lexemes := by
  have front := List.dropWhile_suffix (l := lexemes) isSpace
  have back := List.dropWhile_suffix (l := (lexemes.dropWhile isSpace).reverse) isSpace
  have kept : trimmed lexemes <+: lexemes.dropWhile isSpace := by
    simpa [trimmed] using List.reverse_prefix.mpr back
  exact kept.isInfix.trans front.isInfix

end Lexeme
end TableGateway
