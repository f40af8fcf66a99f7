import BinaryAtlas.Table

/-!
JSON values. An object keeps its members in the order they were given, repeated names included, so
that a reader may refuse them; `last?` is the look-up for readers that let the last one win.
-/

set_option autoImplicit false

namespace BinaryAtlas

/-- A number as it is kept: a whole number of 64 bits, with or without a sign, or the decimal
`± mantissa * 10 ^ exponent` with the fewest digits that stand for some double. -/
inductive Numeral where
  | integer (value : Int)
  | decimal (negative : Bool) (mantissa : Nat) (exponent : Int)
  deriving DecidableEq, Inhabited

namespace Numeral

/-- The two are one quantity. The two zeros among the decimals are, but no integer is a decimal. -/
def agrees : Numeral → Numeral → Bool
  | decimal _ 0 _, decimal _ 0 _ => true
  | x, y => x == y

end Numeral

inductive Json where
  | null
  | bool (value : Bool)
  | number (value : Numeral)
  | string (value : String)
  | array (items : List Json)
  | object (members : List (String × Json))
  deriving Inhabited

namespace Json

mutual

/-- Whether two values agree, with a relation that says which numbers do. -/
def sameBy (number_ : Numeral → Numeral → Bool) : Json → Json → Bool
  | null, null => true
  | bool a, bool b => a == b
  | number a, number b => number_ a b
  | string a, string b => a == b
  | array a, array b => sameItemsBy number_ a b
  | object a, object b => sameMembersBy number_ a b
  | _, _ => false
termination_by structural v => v

def sameItemsBy (number_ : Numeral → Numeral → Bool) : List Json → List Json → Bool
  | [], [] => true
  | a :: rest, b :: rest' => sameBy number_ a b && sameItemsBy number_ rest rest'
  | _, _ => false
termination_by structural l => l

def sameMembersBy (number_ : Numeral → Numeral → Bool) :
    List (String × Json) → List (String × Json) → Bool
  | [], [] => true
  | (n, a) :: rest, (n', b) :: rest' =>
    n == n' && sameBy number_ a b && sameMembersBy number_ rest rest'
  | _, _ => false
termination_by structural l => l

end

mutual

theorem sameBy_beq_iff : ∀ a b : Json, sameBy (· == ·) a b = true ↔ a = b
  | a, b => by
    cases a <;> cases b <;> simp [sameBy, sameItemsBy_beq_iff, sameMembersBy_beq_iff]

theorem sameItemsBy_beq_iff : ∀ a b : List Json, sameItemsBy (· == ·) a b = true ↔ a = b
  | [], b => by cases b <;> simp [sameItemsBy]
  | a :: rest, b => by cases b <;> simp [sameItemsBy, sameBy_beq_iff a, sameItemsBy_beq_iff rest]

theorem sameMembersBy_beq_iff :
    ∀ a b : List (String × Json), sameMembersBy (· == ·) a b = true ↔ a = b
  | [], b => by cases b <;> simp [sameMembersBy]
  | (_, a) :: rest, b => by
    rcases b with _ | ⟨⟨_, _⟩, _⟩ <;>
      simp [sameMembersBy, sameBy_beq_iff a, sameMembersBy_beq_iff rest, and_assoc]

end

instance : DecidableEq Json := fun a b => decidable_of_iff _ (sameBy_beq_iff a b)

def agrees (a b : Json) : Bool := sameBy Numeral.agrees a b

mutual

/-- The value with the members of its objects in the order of their names, and of several members
with one name only the last. -/
def canonical : Json → Json
  | array items => array (canonicalItems items)
  | object members => object (canonicalMembers members).entries
  | v => v
termination_by structural v => v

def canonicalItems : List Json → List Json
  | [] => []
  | v :: rest => canonical v :: canonicalItems rest
termination_by structural l => l

def canonicalMembers : List (String × Json) → Table String Json
  | [] => .empty
  | (name, v) :: rest =>
    let others := canonicalMembers rest
    if others.contains name then others else others.insert name (canonical v)
termination_by structural l => l

end

def nat (n : Nat) : Json := .number (.integer n)

def int (i : Int) : Json := .number (.integer i)

def last? (v : Json) (name : String) : Option Json :=
  match v with
  | .object members => (members.reverse.find? (fun m => m.1 == name)).map (·.2)
  | _ => none

def nat? : Json → Option Nat
  | .number (.integer i) => if 0 ≤ i then some i.toNat else none
  | _ => none

def bool? : Json → Option Bool
  | .bool b => some b
  | _ => none

def string? : Json → Option String
  | .string s => some s
  | _ => none

def items? : Json → Option (List Json)
  | .array items => some items
  | _ => none

def optional {α : Type} (write : α → Json) : Option α → Json
  | none => .null
  | some a => write a

def list {α : Type} (write : α → Json) (l : List α) : Json :=
  .array (l.map write)

end Json

end BinaryAtlas
