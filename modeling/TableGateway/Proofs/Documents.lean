import TableGateway.Proofs.FloatReading
import TableGateway.Proofs.JsonStrings
import TableGateway.Proofs.Nesting
import TableGateway.Proofs.Template

/-! A document that is printed is read again as the same document, up to the binary fractions in it. It is read as
deep as the reader goes; a deeper one is refused. -/
namespace TableGateway
namespace Json

mutual
def restored : Json → Json
  | .float x => .float (reread x)
  | .array items => .array (restoredItems items)
  | .object fields => .object (restoredFields fields)
  | j => j

def restoredItems : List Json → List Json
  | [] => []
  | item :: rest => restored item :: restoredItems rest

def restoredFields : List (Text × Json) → List (Text × Json)
  | [] => []
  | (name, value) :: rest => (name, restored value) :: restoredFields rest
end

namespace Reader

structure Reads {α : Type} (result : Except Fault α) (fits : Prop) (a : α) : Prop where
  within : fits → result = .ok a
  beyond : ¬fits → ∃ fault, result = .error fault

theorem Reads.bind {α β : Type} {result : Except Fault α} {next : α → Except Fault β} {p q : Prop} {a : α} {b : β}
    (first : Reads result p a) (second : Reads (next a) q b) : Reads (result >>= next) (p ∧ q) b := by
  constructor
  · rintro ⟨one, two⟩
    rw [first.within one]
    exact second.within two
  · intro neither
    by_cases one : p
    · rw [first.within one]
      exact second.beyond fun two => neither ⟨one, two⟩
    · obtain ⟨fault, failed⟩ := first.beyond one
      exact ⟨fault, by rw [failed]; rfl⟩

theorem readsOk {α : Type} {result : Except Fault α} {fits : Prop} {a : α} (holds : fits) (ok : result = .ok a) :
    Reads result fits a :=
  ⟨fun _ => ok, fun no => absurd holds no⟩

theorem Reads.map {α β : Type} {result : Except Fault α} {next : α → Except Fault β} {p : Prop} {a : α} {b : β}
    (reads : Reads result p a) (ok : next a = .ok b) : Reads (result >>= next) p b := by
  have both := reads.bind (readsOk trivial ok)
  rwa [and_true] at both

theorem digitNotSpace {c : Char} (digit : c.isDigit) : isSpace c = false := by
  rw [Bool.eq_false_iff]
  intro space
  have : c = ' ' ∨ c = '\n' ∨ c = '\t' ∨ c = '\r' := by
    simpa [isSpace, or_assoc] using space
  rcases this with rfl | rfl | rfl | rfl <;> cases digit

theorem skipSolid {c : Char} (solid : isSpace c = false) (t : Text) : skip (c :: t) = c :: t := by
  rw [skip, List.dropWhile_cons_of_neg (by simp [solid])]

theorem valueDigit {c : Char} (digit : c.isDigit) (fuel depth : Nat) (t : Text) :
    value (fuel + 1) depth (c :: t) = number false (c :: t) := by
  rw [value, skipSolid (digitNotSpace digit)]
  dsimp only
  split
  case h_10 => rw [if_pos digit]
  all_goals exact absurd digit (by decide)

theorem valueMinus (fuel depth : Nat) (t : Text) : value (fuel + 1) depth ('-' :: t) = number true t := by
  rw [value, skipSolid (by decide)]
  cases depth <;> rfl

theorem valueQuote (fuel depth : Nat) (s rest : Text) :
    value (fuel + 1) depth (quote s ++ rest) = .ok (.string s, rest) := by
  have text : quote s ++ rest = '"' :: (s.flatMap escape ++ '"' :: rest) := by simp [quote]
  rw [text, value, skipSolid (by decide)]
  cases depth with
  | _ =>
    simp only [quotedRead]
    rfl

theorem wholeValue (n : WholeNumber) (fuel depth : Nat) {rest : Text} (stops : Stops rest) :
    value (fuel + 1) depth (Text.ofInt n.value ++ rest) = .ok (.whole n, rest) := by
  have low := n.low
  have high := n.high
  have whole : Json.ofInt n.value = .whole n := dif_pos ⟨low, high⟩
  cases number : n.value with
  | ofNat k =>
    rw [number] at whole high
    obtain ⟨c, t, digits, -⟩ := (wholeOfNat k).first
    have digit : c.isDigit := (wholeOfNat k).all c (by simp [digits])
    have fits : (k : Int) < 2 ^ 64 := high
    have read := numberWhole (wholeOfNat k) stops (by rw [Text.toNatOfNat]; omega) false
    rw [Text.toNatOfNat, digits] at read
    rw [Text.ofInt, digits, List.cons_append, valueDigit digit, ← List.cons_append, read, ← whole]
    rfl
  | negSucc k =>
    rw [number] at whole low
    have read := numberWhole (wholeOfNat (k + 1)) stops (by rw [Text.toNatOfNat]; omega) true
    rw [Text.toNatOfNat, if_neg (by decide), if_neg (by omega)] at read
    rw [Text.ofInt, List.cons_append, valueMinus, read, ← whole]
    rfl

theorem layoutHead (x : Scientific) : ∃ c t, FloatStyle.document.layout x = c :: t ∧ c.isDigit := by
  obtain ⟨c, t, digits, -⟩ := (wholeOfNat x.digits).first
  have digit : c.isDigit := (wholeOfNat x.digits).all c (by simp [digits])
  unfold FloatStyle.layout
  rw [digits]
  dsimp only
  split
  · split
    · exact ⟨c, _, rfl, digit⟩
    · split
      · exact ⟨c, _, rfl, digit⟩
      · exact ⟨'0', _, rfl, rfl⟩
  · exact ⟨c, _, rfl, digit⟩

theorem floatHead (x : FiniteFloat) : ∃ c t, unsigned x = c :: t ∧ c.isDigit := by
  obtain ⟨negative, m, q, reading⟩ := Binary.finiteReading x.finite
  rw [unsigned, reading]
  cases m with
  | zero => exact ⟨'0', _, rfl, rfl⟩
  | succ m => exact layoutHead _

theorem floatValue (x : FiniteFloat) (fuel depth : Nat) {rest : Text} (stops : Stops rest) :
    value (fuel + 1) depth (print (.float x) ++ rest) = .ok (.float (reread x), rest) := by
  have read := fractionRead x stops
  rw [printFloat]
  cases sign : x.value.negative with
  | true =>
    rw [sign] at read
    exact (valueMinus fuel depth _).trans read
  | false =>
    obtain ⟨c, t, text, digit⟩ := floatHead x
    rw [sign, text] at read
    rw [text]
    exact (valueDigit digit fuel depth _).trans read

theorem printHead (j : Json) : ∃ c t, print j = c :: t ∧ isSpace c = false ∧ c ≠ ']' := by
  have digitHead {c : Char} (digit : c.isDigit) : isSpace c = false ∧ c ≠ ']' :=
    ⟨digitNotSpace digit, fun same => by rw [same] at digit; cases digit⟩
  cases j with
  | null => exact ⟨'n', _, rfl, by decide, by decide⟩
  | bool b =>
    cases b with
    | true => exact ⟨'t', _, rfl, by decide, by decide⟩
    | false => exact ⟨'f', _, rfl, by decide, by decide⟩
  | whole n =>
    rw [print]
    cases n.value with
    | ofNat k =>
      obtain ⟨c, t, digits, -⟩ := (wholeOfNat k).first
      exact ⟨c, t, digits, digitHead ((wholeOfNat k).all c (by simp [digits]))⟩
    | negSucc k => exact ⟨'-', _, rfl, by decide, by decide⟩
  | float x =>
    rw [printFloat]
    cases x.value.negative with
    | true => exact ⟨'-', _, rfl, by decide, by decide⟩
    | false =>
      obtain ⟨c, t, text, digit⟩ := floatHead x
      exact ⟨c, t, text, digitHead digit⟩
  | string s => exact ⟨'"', _, rfl, by decide, by decide⟩
  | array items => exact ⟨'[', _, rfl, by decide, by decide⟩
  | object fields => exact ⟨'\x7b', _, rfl, by decide, by decide⟩

theorem valueArray (fuel depth : Nat) {c : Char} (solid : isSpace c = false) (more : c ≠ ']') (t : Text) :
    value (fuel + 1) (depth + 1) ('[' :: c :: t) =
      value fuel depth (c :: t) >>= fun x => items fuel depth x.2 >>= fun y => .ok (.array (x.1 :: y.1), y.2) := by
  rw [value, skipSolid (by decide)]
  simp only [skipSolid solid]
  split
  case h_1 none => cases none
  case h_2 closed => exact absurd (List.cons.inj closed).1 more
  case h_3 => rfl

theorem itemsNext (fuel depth : Nat) {c : Char} (solid : isSpace c = false) (more : c ≠ ']') (t : Text) :
    items (fuel + 1) depth (',' :: c :: t) =
      value fuel depth (c :: t) >>= fun x => items fuel depth x.2 >>= fun y => .ok (x.1 :: y.1, y.2) := by
  rw [items, skipSolid (by decide)]
  simp only [skipSolid solid]
  split
  case h_1 none => cases none
  case h_2 closed => exact absurd (List.cons.inj closed).1 more
  case h_3 => rfl

theorem valueObject (fuel depth : Nat) (t : Text) :
    value (fuel + 1) (depth + 1) ('\x7b' :: '"' :: t) =
      fields fuel depth [] t >>= fun x => .ok (.object x.1, x.2) := rfl

theorem fieldsName (fuel depth : Nat) (r : Record) (name t : Text) :
    fields (fuel + 1) depth r (name.flatMap escape ++ '"' :: ':' :: t) = (do
      let (v, rest) ← value fuel depth t
      match skip rest with
      | [] => .error (.before .endInObject [])
      | '\x7d' :: rest => .ok (Record.put r name v, rest)
      | ',' :: rest =>
        match skip rest with
        | [] => .error (.before .endInValue [])
        | '"' :: rest => fields fuel depth (Record.put r name v) rest
        | '\x7d' :: rest => .error (.atHead .trailingComma ('\x7d' :: rest))
        | rest => .error (.atHead .nameNotString rest)
      | rest => .error (.atHead .expectedObjectEnd rest)) := by
  rw [fields, quotedRead]
  rfl

theorem putNew {r : Record} {name : Text} (new : name ∉ Record.keys r) (v : Json) :
    Record.put r name v = r ++ [(name, v)] := by
  induction r with
  | nil => rfl
  | cons field r ih =>
    rw [Record.keys, List.map_cons, List.mem_cons, not_or] at new
    rw [Record.put, if_neg (fun same => new.1 same.symm), ih new.2]
    rfl

def itemsBehind (others : List Json) (rest : Text) : Text :=
  (printItems others).flatMap ([','] ++ ·) ++ ']' :: rest

def fieldsBehind (others : List (Text × Json)) (rest : Text) : Text :=
  (printFields others).flatMap ([','] ++ ·) ++ '\x7d' :: rest

def fieldsFrom : List (Text × Json) → Text → Text
  | [], rest => rest
  | (name, v) :: others, rest => name.flatMap escape ++ '"' :: ':' :: (print v ++ fieldsBehind others rest)

theorem printArray (first : Json) (others : List Json) (rest : Text) :
    print (.array (first :: others)) ++ rest = '[' :: (print first ++ itemsBehind others rest) := by
  simp [print, printItems, join, intercalateFlat, itemsBehind]

theorem itemsBehindNext (item : Json) (others : List Json) (rest : Text) :
    itemsBehind (item :: others) rest = ',' :: (print item ++ itemsBehind others rest) := by
  simp [printItems, itemsBehind]

theorem printObject (field : Text × Json) (others : List (Text × Json)) (rest : Text) :
    print (.object (field :: others)) ++ rest = '\x7b' :: '"' :: fieldsFrom (field :: others) rest := by
  simp [print, printFields, join, intercalateFlat, fieldsFrom, fieldsBehind, quote]

theorem fieldsBehindNext (field : Text × Json) (others : List (Text × Json)) (rest : Text) :
    fieldsBehind (field :: others) rest = ',' :: '"' :: fieldsFrom (field :: others) rest := by
  simp [printFields, fieldsFrom, fieldsBehind, quote]

theorem itemsStop (others : List Json) (rest : Text) : Stops (itemsBehind others rest) := by
  cases others <;> simp [Stops, itemsBehind, printItems]

theorem fieldsStop (others : List (Text × Json)) (rest : Text) : Stops (fieldsBehind others rest) := by
  cases others <;> simp [Stops, fieldsBehind, printFields]

def Returns (j : Json) : Prop :=
  ∀ (fuel depth : Nat) (rest : Text), (print j).length ≤ fuel → Stops rest →
    Reads (value fuel depth (print j ++ rest)) (j.depth ≤ depth) (j.restored, rest)

def ReturnsItems (js : List Json) : Prop :=
  ∀ (fuel depth : Nat) (rest : Text), (itemsBehind js []).length ≤ fuel →
    Reads (items fuel depth (itemsBehind js rest)) (depthItems js ≤ depth) (restoredItems js, rest)

def ReturnsFields (named : List (Text × Json)) : Prop :=
  ∀ (fuel depth : Nat) (r : Record) (rest : Text), (fieldsFrom named []).length ≤ fuel → named ≠ [] →
    (Record.keys (r ++ named)).Nodup →
    Reads (fields fuel depth r (fieldsFrom named rest)) (depthFields named ≤ depth) (r ++ restoredFields named, rest)

theorem returnsOne (j : Json) (flat : j.depth = 0)
    (read : ∀ (fuel depth : Nat) (rest : Text), Stops rest →
      value (fuel + 1) depth (print j ++ rest) = .ok (j.restored, rest)) : Returns j := by
  intro fuel depth rest enough stops
  obtain ⟨c, t, text, -⟩ := printHead j
  rw [text, List.length_cons] at enough
  obtain ⟨fuel, rfl⟩ : ∃ more, fuel = more + 1 := ⟨fuel - 1, by omega⟩
  exact readsOk (by omega) (read fuel depth rest stops)

theorem returnsOpened (j : Json) (deep : 0 < j.depth) {c : Char} {t : Text} (text : print j = c :: t)
    (opening : c = '[' ∨ c = '\x7b')
    (read : ∀ (fuel depth : Nat) (rest : Text), (print j).length ≤ fuel + 1 →
      Reads (value (fuel + 1) (depth + 1) (print j ++ rest)) (j.depth ≤ depth + 1) (j.restored, rest)) :
    Returns j := by
  intro fuel depth rest enough _
  have := text ▸ enough
  rw [List.length_cons] at this
  obtain ⟨fuel, rfl⟩ : ∃ more, fuel = more + 1 := ⟨fuel - 1, by omega⟩
  cases depth with
  | succ depth => exact read fuel depth rest enough
  | zero =>
    refine ⟨fun fits => absurd fits (by omega), fun _ => ?_⟩
    rw [text]
    rcases opening with rfl | rfl <;> exact ⟨_, rfl⟩

theorem returnsArray {first : Json} {others : List Json} (head : Returns first) (tail : ReturnsItems others) :
    Returns (.array (first :: others)) := by
  have length : (print (.array (first :: others))).length =
      (print first).length + (itemsBehind others []).length + 1 := by
    rw [← List.append_nil (print _), printArray, List.length_cons, List.length_append]
  refine returnsOpened (.array (first :: others)) (Nat.succ_pos _) rfl (.inl rfl) fun fuel depth rest enough => ?_
  obtain ⟨c, t, text, solid, more⟩ := printHead first
  rw [printArray, text, List.cons_append, valueArray fuel depth solid more, ← List.cons_append, ← text, Json.depth,
    depthItems, Nat.add_le_add_iff_right, Nat.max_le]
  exact (head fuel depth _ (by omega) (itemsStop others rest)).bind ((tail fuel depth rest (by omega)).map rfl)

theorem returnsEnd : ReturnsItems [] := by
  intro fuel depth rest enough
  obtain ⟨fuel, rfl⟩ : ∃ more, fuel = more + 1 := ⟨fuel - 1, (Nat.sub_add_cancel enough).symm⟩
  exact readsOk (Nat.zero_le depth) rfl

theorem returnsItem {item : Json} {others : List Json} (head : Returns item) (tail : ReturnsItems others) :
    ReturnsItems (item :: others) := by
  intro fuel depth rest enough
  rw [itemsBehindNext, List.length_cons, List.length_append] at enough
  obtain ⟨fuel, rfl⟩ : ∃ more, fuel = more + 1 := ⟨fuel - 1, by omega⟩
  obtain ⟨c, t, text, solid, more⟩ := printHead item
  rw [itemsBehindNext, text, List.cons_append, itemsNext fuel depth solid more, ← List.cons_append, ← text,
    depthItems, Nat.max_le]
  exact (head fuel depth _ (by omega) (itemsStop others rest)).bind ((tail fuel depth rest (by omega)).map rfl)

theorem returnsObject {field : Text × Json} {others : List (Text × Json)}
    (apart : (Record.keys (field :: others)).Nodup) (all : ReturnsFields (field :: others)) :
    Returns (.object (field :: others)) := by
  have length : (print (.object (field :: others))).length = (fieldsFrom (field :: others) []).length + 2 := by
    rw [← List.append_nil (print _), printObject, List.length_cons, List.length_cons]
  refine returnsOpened (.object (field :: others)) (Nat.succ_pos _) rfl (.inr rfl) fun fuel depth rest enough => ?_
  rw [printObject, valueObject, Json.depth, Nat.add_le_add_iff_right]
  exact (all fuel depth [] rest (by omega) (List.cons_ne_nil _ _) apart).map rfl

theorem returnsField {name : Text} {v : Json} {others : List (Text × Json)} (head : Returns v)
    (tail : ReturnsFields others) : ReturnsFields ((name, v) :: others) := by
  intro fuel depth r rest enough _ apart
  have length : (fieldsFrom ((name, v) :: others) []).length =
      (name.flatMap escape).length + (print v).length + (fieldsBehind others []).length + 2 := by
    simp only [fieldsFrom, List.length_append, List.length_cons]
    omega
  obtain ⟨fuel, rfl⟩ : ∃ more, fuel = more + 1 := ⟨fuel - 1, by omega⟩
  have new : name ∉ Record.keys r := by
    rw [Record.keys, List.map_append, List.nodup_append] at apart
    exact fun there => apart.2.2 name there name (by simp) rfl
  rw [fieldsFrom, fieldsName, depthFields, Nat.max_le]
  refine (head fuel depth _ (by omega) (fieldsStop others rest)).bind ?_
  cases others with
  | nil =>
    dsimp only
    rw [putNew new]
    exact readsOk (Nat.zero_le depth) rfl
  | cons next others =>
    rw [fieldsBehindNext, List.length_cons, List.length_cons] at length
    have further := tail fuel depth (r ++ [(name, v.restored)]) rest (by omega) (List.cons_ne_nil _ _)
      (by simpa [Record.keys] using apart)
    dsimp only
    rw [putNew new, fieldsBehindNext]
    rw [List.append_assoc] at further
    exact further

mutual
theorem returns : (j : Json) → j.isNamed → Returns j
  | .null, _ => returnsOne .null rfl fun _ depth _ _ => by cases depth <;> rfl
  | .bool true, _ => returnsOne (.bool true) rfl fun _ depth _ _ => by cases depth <;> rfl
  | .bool false, _ => returnsOne (.bool false) rfl fun _ depth _ _ => by cases depth <;> rfl
  | .whole n, _ => returnsOne (.whole n) rfl fun fuel depth _ stops => wholeValue n fuel depth stops
  | .float x, _ => returnsOne (.float x) rfl fun fuel depth _ stops => floatValue x fuel depth stops
  | .string s, _ => returnsOne (.string s) rfl fun fuel depth rest _ => valueQuote fuel depth s rest
  | .array [], _ =>
    returnsOpened (.array []) Nat.one_pos rfl (.inl rfl) fun _ _ _ _ => readsOk (Nat.le_add_left 1 _) rfl
  | .array (first :: others), named => by
    rw [isNamed, areNamed, Bool.and_eq_true] at named
    exact returnsArray (returns first named.1) (returnsItems others named.2)
  | .object [], _ =>
    returnsOpened (.object []) Nat.one_pos rfl (.inr rfl) fun _ _ _ _ => readsOk (Nat.le_add_left 1 _) rfl
  | .object (field :: others), named => by
    rw [isNamed, Bool.and_eq_true, decide_eq_true_iff] at named
    exact returnsObject named.1 (returnsFields (field :: others) named.2)

theorem returnsItems : (js : List Json) → areNamed js → ReturnsItems js
  | [], _ => returnsEnd
  | item :: others, named => by
    rw [areNamed, Bool.and_eq_true] at named
    exact returnsItem (returns item named.1) (returnsItems others named.2)

theorem returnsFields : (named : List (Text × Json)) → areNamedFields named → ReturnsFields named
  | [], _ => fun _ _ _ _ _ none => absurd rfl none
  | (name, v) :: others, named => by
    rw [areNamedFields, Bool.and_eq_true] at named
    exact returnsField (returns v named.1) (returnsFields others named.2)
end

end Reader

theorem readPrint {j : Json} (named : j.isNamed) (shallow : j.depth ≤ 127) : read (print j) = .ok j.restored := by
  have value := (Reader.returns j named _ 127 [] (Nat.le_succ _) (by simp [Stops])).within shallow
  rw [List.append_nil] at value
  rw [read, value]
  rfl

end Json
end TableGateway
