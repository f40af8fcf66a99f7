/-!
Addresses, lengths and offsets are 64-bit words. The plain operators wrap around; here are the
operations that stop at the top of the range or say that they passed it, each with its meaning as
a natural number.
-/

set_option autoImplicit false

namespace BinaryAtlas

abbrev Word := UInt64

namespace Word

def top : Word := 0xffffffffffffffff

@[simp] theorem toNat_top : top.toNat = 0xffffffffffffffff := rfl

theorem max_eq (a b : Word) : max a b = if a ≤ b then b else a := rfl

theorem min_eq (a b : Word) : min a b = if a ≤ b then a else b := rfl

instance : Std.LawfulOrderMax Word :=
  .of_max_le_iff (fun a b c => by rw [max_eq]; grind) fun a b => by rw [max_eq]; grind

theorem toNat_min (a b : Word) : (min a b).toNat = min a.toNat b.toNat := by
  rw [min_eq]
  split <;> rename_i h <;> rw [UInt64.le_iff_toNat_le] at h <;> omega

theorem toNat_max (a b : Word) : (max a b).toNat = max a.toNat b.toNat := by
  rw [max_eq]
  split <;> rename_i h <;> rw [UInt64.le_iff_toNat_le] at h <;> omega

theorem le_top_sub_iff {a b : Word} :
    a ≤ top - b ↔ a.toNat + b.toNat < 0x10000000000000000 := by
  have := b.toNat_lt
  have below : b ≤ top := UInt64.le_iff_toNat_le.2 (by rw [toNat_top]; omega)
  rw [UInt64.le_iff_toNat_le, UInt64.toNat_sub_of_le _ _ below, toNat_top]
  omega

def addCapped (a b : Word) : Word :=
  if a.toNat + b.toNat < 0x10000000000000000 then a + b else top

theorem toNat_addCapped (a b : Word) :
    (addCapped a b).toNat = min (a.toNat + b.toNat) 0xffffffffffffffff := by
  unfold addCapped
  split
  · rw [UInt64.toNat_add]; omega
  · rw [toNat_top]; omega

theorem addCapped_eq (a b : Word) : addCapped a b = if a ≤ top - b then a + b else top := by
  simp only [addCapped, le_top_sub_iff]

def add? (a b : Word) : Option Word :=
  if a.toNat + b.toNat < 0x10000000000000000 then some (a + b) else none

theorem add?_eq_some_iff {a b c : Word} :
    add? a b = some c ↔ c.toNat = a.toNat + b.toNat := by
  unfold add?
  split
  · rw [Option.some.injEq, ← UInt64.toNat_inj, UInt64.toNat_add]; omega
  · have := c.toNat_lt; simp; omega

theorem add?_eq_none_iff {a b : Word} :
    add? a b = none ↔ 0x10000000000000000 ≤ a.toNat + b.toNat := by
  unfold add?
  split <;> simp <;> omega

theorem eq_of_add? {a b c : Word} (sum : add? a b = some c) : a + b = c := by
  unfold add? at sum
  split at sum
  · exact Option.some.inj sum
  · cases sum

theorem add?_of_lt {a b : Word} (range : a.toNat + b.toNat < 0x10000000000000000) :
    add? a b = some (a + b) ∧ (a + b).toNat = a.toNat + b.toNat :=
  ⟨if_pos range, by rw [UInt64.toNat_add]; omega⟩

theorem toNat_add_ofNat {a : Word} {i : Nat} (range : a.toNat + i < 0x10000000000000000) :
    (a + .ofNat i).toNat = a.toNat + i := by
  have small : i < UInt64.size := Nat.lt_of_le_of_lt (Nat.le_add_left i _) range
  rw [UInt64.toNat_add, UInt64.toNat_ofNat_of_lt' small]
  omega

def subCapped (a b : Word) : Word :=
  if b ≤ a then a - b else 0

theorem toNat_subCapped (a b : Word) : (subCapped a b).toNat = a.toNat - b.toNat := by
  unfold subCapped
  split
  · rename_i h; exact UInt64.toNat_sub_of_le _ _ h
  · rename_i h; rw [UInt64.le_iff_toNat_le] at h; simp; omega

def sub? (a b : Word) : Option Word :=
  if b ≤ a then some (a - b) else none

theorem sub?_eq_some_iff {a b c : Word} :
    sub? a b = some c ↔ a.toNat = b.toNat + c.toNat := by
  unfold sub?
  split
  · rename_i h
    rw [Option.some.injEq, ← UInt64.toNat_inj, UInt64.toNat_sub_of_le _ _ h]
    rw [UInt64.le_iff_toNat_le] at h; omega
  · rename_i h; rw [UInt64.le_iff_toNat_le] at h; simp; omega

theorem eq_of_sub? {a b c : Word} (difference : sub? a b = some c) : a - b = c := by
  unfold sub? at difference
  split at difference
  · exact Option.some.inj difference
  · cases difference

theorem sub?_of_le {a b : Word} (range : b.toNat ≤ a.toNat) :
    sub? a b = some (a - b) ∧ (a - b).toNat = a.toNat - b.toNat :=
  have le : b ≤ a := UInt64.le_iff_toNat_le.2 range
  ⟨if_pos le, UInt64.toNat_sub_of_le _ _ le⟩

def mulCapped (a b : Word) : Word :=
  if a.toNat * b.toNat < 0x10000000000000000 then a * b else top

theorem toNat_mulCapped (a b : Word) :
    (mulCapped a b).toNat = min (a.toNat * b.toNat) 0xffffffffffffffff := by
  unfold mulCapped
  split
  · rename_i h; rw [UInt64.toNat_mul, Nat.mod_eq_of_lt h]; omega
  · rw [toNat_top]; omega

def mul? (a b : Word) : Option Word :=
  if a.toNat * b.toNat < 0x10000000000000000 then some (a * b) else none

theorem mul?_eq_some_iff {a b c : Word} :
    mul? a b = some c ↔ c.toNat = a.toNat * b.toNat := by
  unfold mul?
  split
  · rename_i h; rw [Option.some.injEq, ← UInt64.toNat_inj, UInt64.toNat_mul, Nat.mod_eq_of_lt h]
    exact eq_comm
  · have := c.toNat_lt; simp; omega

theorem eq_of_mul? {a b c : Word} (product : mul? a b = some c) : a * b = c := by
  unfold mul? at product
  split at product
  · exact Option.some.inj product
  · cases product

theorem mul?_of_lt {a b : Word} (range : a.toNat * b.toNat < 0x10000000000000000) :
    mul? a b = some (a * b) ∧ (a * b).toNat = a.toNat * b.toNat :=
  ⟨if_pos range, by rw [UInt64.toNat_mul, Nat.mod_eq_of_lt range]⟩

def ofNatCapped (n : Nat) : Word :=
  if n < 0x10000000000000000 then UInt64.ofNat n else top

theorem toNat_ofNatCapped (n : Nat) : (ofNatCapped n).toNat = min n 0xffffffffffffffff := by
  unfold ofNatCapped
  split
  · rename_i h; rw [UInt64.toNat_ofNat_of_lt' h]; omega
  · rw [toNat_top]; omega

end Word

end BinaryAtlas
