import BinaryAtlas.Word

/-!
The items from an address on, as far as there are any.
-/

set_option autoImplicit false

namespace BinaryAtlas

def onward? {A : Type} (item? : Word → Option A) (a : Word) (i : Nat) : Option A :=
  -- What is so many addresses behind another one; behind the largest there is nothing.
  if a.toNat + i < 0x10000000000000000 then item? (a + .ofNat i) else none

theorem onward?_of_lt {A : Type} (item? : Word → Option A) {a : Word} {i : Nat}
    (range : a.toNat + i < 0x10000000000000000) : onward? item? a i = item? (a + .ofNat i) :=
  if_pos range

theorem onward?_zero {A : Type} (item? : Word → Option A) (a : Word) :
    onward? item? a 0 = item? a := by
  have zero : (UInt64.ofNat 0 : Word) = 0 := rfl
  rw [onward?_of_lt item? a.toNat_lt, zero, UInt64.add_zero]

theorem onward?_add {A : Type} (item? : Word → Option A) {a : Word} {n : Nat}
    (range : a.toNat + n < 0x10000000000000000) (i : Nat) :
    onward? item? a (n + i) = onward? item? (a + .ofNat n) i := by
  unfold onward?
  rw [Word.toNat_add_ofNat range, UInt64.ofNat_add, ← UInt64.add_assoc, Nat.add_assoc]

/-- All items in order up to the first place that has none, at most `limit` of them. -/
structure LongestPrefix {A : Type} (item? : Nat → Option A) (limit : Nat) (items : List A) :
    Prop where
  bounded : items.length ≤ limit
  agrees : ∀ i < items.length, item? i = items[i]?
  ends : items.length < limit → item? items.length = none

namespace LongestPrefix

variable {A : Type} {item? : Nat → Option A} {limit : Nat}

theorem nil (none : item? 0 = none) : LongestPrefix item? limit [] :=
  ⟨Nat.zero_le _, by simp, fun _ => none⟩

theorem nil_limit : LongestPrefix item? 0 [] :=
  ⟨Nat.le_refl _, by simp, by simp⟩

theorem append {piece rest : List A} (within : piece.length ≤ limit)
    (agrees : ∀ i < piece.length, item? i = piece[i]?)
    (later : LongestPrefix (fun i => item? (piece.length + i)) (limit - piece.length) rest) :
    LongestPrefix item? limit (piece ++ rest) := by
  have bounded := later.bounded
  constructor
  · rw [List.length_append]
    omega
  · intro i inside
    rw [List.length_append] at inside
    by_cases early : i < piece.length
    · rw [agrees i early, List.getElem?_append_left early]
    · have late := later.agrees (i - piece.length) (by omega)
      have place : piece.length + (i - piece.length) = i := by omega
      rw [List.getElem?_append_right (by omega), ← late, place]
  · intro short
    rw [List.length_append] at short ⊢
    exact later.ends (by omega)

theorem congr {other? : Nat → Option A} {items : List A} (whole : LongestPrefix item? limit items)
    (same : ∀ i < limit, other? i = item? i) : LongestPrefix other? limit items := by
  have bounded := whole.bounded
  refine ⟨bounded, fun i inside => ?_, fun short => ?_⟩
  · rw [same i (by omega), whole.agrees i inside]
  · rw [same _ short, whole.ends short]

theorem unique {items others : List A} (first : LongestPrefix item? limit items)
    (second : LongestPrefix item? limit others) : items = others := by
  have ordered {items others : List A} (first : LongestPrefix item? limit items)
      (second : LongestPrefix item? limit others) : items.length ≤ others.length := by
    rcases Nat.lt_or_ge others.length items.length with longer | ordered
    · have bounded := first.bounded
      have ends := second.ends (by omega)
      rw [first.agrees _ longer] at ends
      have := List.getElem?_eq_none_iff.1 ends
      omega
    · exact ordered
  have same_length := Nat.le_antisymm (ordered first second) (ordered second first)
  apply List.ext_getElem?
  intro i
  by_cases inside : i < items.length
  · rw [← first.agrees i inside, second.agrees i (by omega)]
  · rw [List.getElem?_eq_none (by omega), List.getElem?_eq_none (by omega)]

end LongestPrefix

end BinaryAtlas
