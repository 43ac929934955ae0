import TableGateway.Number.Binary

/-! JSON documents. A number is a whole number of 64 bits, signed or unsigned, or else a finite binary
fraction. The fields of an object keep the order in which their names first came. -/
namespace TableGateway

structure WholeNumber where
  value : Int
  low : -2 ^ 63 ≤ value
  high : value < 2 ^ 64
  deriving DecidableEq, Repr

structure FiniteFloat where
  value : Binary64
  finite : value.isFinite
  deriving DecidableEq, Repr

inductive Json
  | null
  | bool (b : Bool)
  | whole (n : WholeNumber)
  | float (x : FiniteFloat)
  | string (s : Text)
  | array (items : List Json)
  | object (fields : List (Text × Json))
  deriving Repr, Inhabited

abbrev Record := List (Text × Json)

namespace Record

def put : Record → Text → Json → Record
  | [], name, value => [(name, value)]
  | field :: rest, name, value =>
    if field.1 = name then (name, value) :: rest else field :: put rest name value

def get? (r : Record) (name : Text) : Option Json := List.lookup name r

def keys (r : Record) : List Text := r.map Prod.fst

theorem keysPut (r : Record) (name : Text) (value : Json) :
    keys (put r name value) = if name ∈ keys r then keys r else keys r ++ [name] := by
  induction r with
  | nil => simp [put, keys]
  | cons field rest ih =>
    simp only [put]
    by_cases h : field.1 = name
    · simp [h, keys]
    · have h' : ¬name = field.1 := fun e => h e.symm
      simp only [keys] at ih
      simp only [h, if_false, keys, List.map_cons, ih, List.mem_cons, h', false_or]
      by_cases m : name ∈ rest.map Prod.fst <;> simp [m]

end Record

namespace Json

mutual
def decEq : (a b : Json) → Decidable (a = b)
  | .null, .null => isTrue rfl
  | .bool a, .bool b => decidable_of_iff (a = b) (by simp)
  | .whole a, .whole b => decidable_of_iff (a = b) (by simp)
  | .float a, .float b => decidable_of_iff (a = b) (by simp)
  | .string a, .string b => decidable_of_iff (a = b) (by simp)
  | .array a, .array b =>
    match decEqItems a b with
    | isTrue h => isTrue (by rw [h])
    | isFalse h => isFalse (by simpa using h)
  | .object a, .object b =>
    match decEqFields a b with
    | isTrue h => isTrue (by rw [h])
    | isFalse h => isFalse (by simpa using h)
  | .null, .bool _ | .null, .whole _ | .null, .float _ | .null, .string _ | .null, .array _
  | .null, .object _ | .bool _, .null | .bool _, .whole _ | .bool _, .float _ | .bool _, .string _
  | .bool _, .array _ | .bool _, .object _ | .whole _, .null | .whole _, .bool _
  | .whole _, .float _ | .whole _, .string _ | .whole _, .array _ | .whole _, .object _
  | .float _, .null | .float _, .bool _ | .float _, .whole _ | .float _, .string _
  | .float _, .array _ | .float _, .object _ | .string _, .null | .string _, .bool _
  | .string _, .whole _ | .string _, .float _ | .string _, .array _ | .string _, .object _
  | .array _, .null | .array _, .bool _ | .array _, .whole _ | .array _, .float _
  | .array _, .string _ | .array _, .object _ | .object _, .null | .object _, .bool _
  | .object _, .whole _ | .object _, .float _ | .object _, .string _ | .object _, .array _ =>
    isFalse (by simp)

def decEqItems : (a b : List Json) → Decidable (a = b)
  | [], [] => isTrue rfl
  | [], _ :: _ => isFalse (by simp)
  | _ :: _, [] => isFalse (by simp)
  | a :: as, b :: bs =>
    match decEq a b, decEqItems as bs with
    | isTrue h, isTrue t => isTrue (by rw [h, t])
    | isFalse h, _ => isFalse (by simp [h])
    | _, isFalse t => isFalse (by simp [t])

def decEqFields : (a b : List (Text × Json)) → Decidable (a = b)
  | [], [] => isTrue rfl
  | [], _ :: _ => isFalse (by simp)
  | _ :: _, [] => isFalse (by simp)
  | (k, a) :: as, (l, b) :: bs =>
    match decEq a b, decEqFields as bs with
    | isTrue h, isTrue t => if e : k = l then isTrue (by rw [h, t, e]) else isFalse (by simp [e])
    | isFalse h, _ => isFalse (by simp [h])
    | _, isFalse t => isFalse (by simp [t])
end

instance : DecidableEq Json := decEq

def ofFloat (x : Binary64) : Json := if h : x.isFinite then .float ⟨x, h⟩ else .null

def ofInt (n : Int) : Json :=
  if h : -2 ^ 63 ≤ n ∧ n < 2 ^ 64 then .whole ⟨n, h.1, h.2⟩ else ofFloat (Binary.ofInt _ n)

end Json
end TableGateway
