import BinaryAtlas.Text.Hexadecimal

/-!
Identifiers of 128 bits for types, tags and tag types. Those made here count up from `2 ^ 64`, so
they stay clear of the small ones that callers choose.
-/

set_option autoImplicit false

namespace BinaryAtlas

structure Uuid where
  value : Nat
  deriving DecidableEq, Inhabited

namespace Uuid

instance : Ord Uuid := ⟨fun a b => compare a.value b.value⟩

instance : Std.TransOrd Uuid :=
  inferInstanceAs (Std.TransCmp (compareOn Uuid.value))

instance : Std.LawfulEqOrd Uuid where
  eq_of_compare {a b} h := by
    cases a; cases b
    exact congrArg Uuid.mk (Std.compare_eq_iff_eq.1 h)

def fresh (made : Nat) : Uuid := ⟨0x10000000000000000 + made⟩

def text (id : Uuid) : String :=
  let digits := (hexDigitsPadded 32 id.value).toList
  let group := fun first count => String.ofList ((digits.drop first).take count)
  "-".intercalate [group 0 8, group 8 4, group 12 4, group 16 4, group 20 12]

end Uuid

end BinaryAtlas
