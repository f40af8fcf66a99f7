import BinaryAtlas.Proofs.Listing.Edges

/-!
The unit that begins at an address: an instruction that stays in its block, a variable as a whole,
or a row of bytes that goes no further than a row may.
-/

set_option autoImplicit false

namespace BinaryAtlas

namespace Space

variable {s : Space} {settings : ListingSettings} {a u v p x : Word} {unit : ListingUnit}

theorem length_read_le (s : Space) (a : Word) (length : Nat) :
    (s.read a length).length ≤ length := by
  unfold read Backend.read
  cases s.backend with
  | raw => exact Storage.length_read_le s.storage a length
  | mapped label => exact SegmentMap.length_read_le s.map s.storage a length

/-- What is decoded at a place before the end of its block is no longer than the block goes on. -/
theorem Walkable.decode_fits (walkable : s.Walkable) {architecture : Architecture} {stop : Word}
    (known : s.architecture = some architecture) (before : a < stop) :
    (architecture.decode (Listing.codeBytes s architecture a stop) a).length + a.toNat ≤
      stop.toNat := by
  have room := (Word.sub?_of_le (Nat.le_of_lt (UInt64.lt_iff_toNat_lt.1 before))).2
  have bytes := length_read_le s a (min architecture.maxInstructionLength (stop - a).toNat)
  have decoded := walkable.decodes known (Listing.codeBytes s architecture a stop) a
  rw [UInt64.lt_iff_toNat_lt] at before
  unfold Listing.codeBytes at decoded ⊢
  omega

theorem Walkable.toNat_stepLength (walkable : s.Walkable) {architecture : Architecture}
    {stop : Word} (known : s.architecture = some architecture) (before : a < stop) :
    (Listing.stepLength s architecture a stop).toNat =
      max (architecture.decode (Listing.codeBytes s architecture a stop) a).length 1 := by
  have one : (1 : Word).toNat = 1 := rfl
  have := walkable.decode_fits known before
  have := stop.toNat_lt
  unfold Listing.stepLength
  generalize (architecture.decode (Listing.codeBytes s architecture a stop) a).length = length at *
  have small : (UInt64.ofNat length).toNat = length :=
    UInt64.toNat_ofNat_of_lt' (show length < 18446744073709551616 by omega)
  rw [Word.toNat_max, small, one]

/-- An instruction moves on, but not past the end of its block. -/
theorem Walkable.stepLength_fits (walkable : s.Walkable) {architecture : Architecture} {stop : Word}
    (known : s.architecture = some architecture) (before : a < stop) :
    a < a + Listing.stepLength s architecture a stop ∧
      a + Listing.stepLength s architecture a stop ≤ stop := by
  have decoded := walkable.decode_fits known before
  have step := walkable.toNat_stepLength known before
  have := stop.toNat_lt
  rw [UInt64.lt_iff_toNat_lt] at before
  rw [UInt64.lt_iff_toNat_lt, UInt64.le_iff_toNat_le, UInt64.toNat_add]
  omega

theorem Walkable.codeUnit_stop (walkable : s.Walkable) {architecture : Architecture}
    {b : BasicBlock} {function : Word} (known : s.architecture = some architecture)
    (before : a < b.stop) :
    (Listing.codeUnit s settings a function b architecture).1 =
      a + Listing.stepLength s architecture a b.stop := by
  have step := walkable.toNat_stepLength known before
  have decoded := walkable.decode_fits known before
  have := b.stop.toNat_lt
  have one : (1 : Word).toNat = 1 := rfl
  simp only [Listing.codeUnit, Instruction.isValid, decide_eq_true_eq]
  generalize (architecture.decode (Listing.codeBytes s architecture a b.stop) a) = i at *
  have small : (UInt64.ofNat i.length).toNat = i.length :=
    UInt64.toNat_ofNat_of_lt' (show i.length < 18446744073709551616 by omega)
  by_cases valid : 0 < i.length
  · rw [if_pos valid]
    refine congrArg (a + ·) (UInt64.toNat_inj.1 ?_)
    omega
  · rw [if_neg valid]
    refine congrArg (a + ·) (UInt64.toNat_inj.1 ?_)
    omega

theorem Walkable.unitAt?_code (walkable : s.Walkable) (settings : ListingSettings)
    (valid : s.isValid a = true) {function : Word} {b : BasicBlock} {architecture : Architecture}
    (found : Listing.codeBlockAt? s a = some (function, b, architecture)) :
    ∃ unit, Listing.unitAt? s settings a = some unit ∧ unit.start = a ∧
      unit.stop = a + Listing.stepLength s architecture a b.stop := by
  have known := (codeBlockAt?_eq_some_iff.1 found).1
  simp only [Listing.unitAt?, valid, Bool.not_true, Bool.false_eq_true, if_false, found,
    Option.some.injEq, exists_eq_left', true_and]
  exact walkable.codeUnit_stop known (AddressRange.contains_iff.1 (codeBlock_covers found).2).2

/-- Where a unit can begin: anywhere, but within a variable only at its start. -/
structure Sits (s : Space) (a : Word) : Prop where
  valid : s.isValid a = true
  inVariable : ∀ {v}, v ∈ s.metadata.dataVariables.values → v.range.contains a = true →
    v.address = a

theorem variable_holds_start {v : DataVariable}
    (valid : s.isValid v.address = true) : v.range.contains v.address = true := by
  have one : (1 : Word).toNat = 1 := rfl
  have := UInt64.lt_iff_toNat_lt.1 (lt_stop valid)
  have := s.stop.toNat_lt
  refine AddressRange.contains_iff.2 ⟨Std.le_refl _, ?_⟩
  show v.address < Word.addCapped v.address (max v.type.width 1)
  rw [UInt64.lt_iff_toNat_lt, Word.toNat_addCapped, Word.toNat_max]
  omega

theorem Listable.unitAt?_variable (listable : s.Listable) {v : DataVariable}
    (valid : s.isValid v.address = true) (member : v ∈ s.metadata.dataVariables.values) :
    ∃ unit, Listing.unitAt? s settings v.address = some unit ∧ unit.start = v.address ∧
      unit.stop = v.range.stop := by
  have uncoded : Listing.codeBlockAt? s v.address = none := by
    rw [Option.eq_none_iff_forall_ne_some]
    rintro ⟨function, b, architecture⟩ found
    obtain ⟨part, inside⟩ :=
      FunctionTable.blockAt?_eq_some (codeBlockAt?_eq_some_iff.1 found).2
    rw [listable.kindsApart member part (variable_holds_start valid)] at inside
    cases inside
  obtain ⟨key, held⟩ := (Table.mem_values_iff _ v).1 member
  have filed := listable.filed held
  subst filed
  simp only [Listing.unitAt?, valid, Bool.not_true, Bool.false_eq_true, if_false, uncoded, held,
    Option.some.injEq, exists_eq_left', and_self]

/-- A row moves on, but not past where rows end at the latest. -/
theorem Walkable.rowUnit?_within (walkable : s.Walkable) (valid : s.isValid a = true) {stop : Word}
    {line : ListingLine} (shown : Listing.rowUnit? s settings a = some (stop, line)) :
    a < stop ∧ stop ≤ Listing.rowStop s settings a := by
  have before : a < Listing.rowStop s settings a := walkable.lt_rowStop valid
  have room := (Word.sub?_of_le (Nat.le_of_lt (UInt64.lt_iff_toNat_lt.1 before))).2
  have within := length_read_le s a (Listing.rowStop s settings a - a).toNat
  have := (Listing.rowStop s settings a).toNat_lt
  rw [UInt64.lt_iff_toNat_lt] at before
  simp only [Listing.rowUnit?, List.isEmpty_iff] at shown
  split at shown
  · cases shown
  · rename_i given
    have some_bytes := List.length_pos_iff.2 given
    obtain ⟨rfl, -⟩ := Prod.mk.inj (Option.some.inj shown)
    rw [UInt64.lt_iff_toNat_lt, UInt64.le_iff_toNat_le, Word.toNat_add_ofNat (by omega)]
    omega

theorem Listable.unitAt?_row (listable : s.Listable) (valid : s.isValid a = true)
    (uncovered : Listing.coveredStop? s a = none) :
    ∃ unit, Listing.unitAt? s settings a = some unit ∧ unit.start = a ∧ a < unit.stop ∧
      unit.stop ≤ Listing.rowStop s settings a := by
  have uncoded : Listing.codeBlockAt? s a = none := by
    unfold Listing.coveredStop? at uncovered
    split at uncovered
    · cases uncovered
    · assumption
  have unnamed : s.metadata.dataVariables.get? a = none := by
    rw [Option.eq_none_iff_forall_ne_some]
    intro v held
    have filed := listable.filed held
    subst filed
    have covers : s.Covers v.range := .inr ⟨v, (Table.mem_values_iff _ v).2 ⟨_, held⟩, rfl⟩
    have clear := listable.not_covers uncovered covers
    rw [variable_holds_start valid] at clear
    cases clear
  have before : a < Listing.rowStop s settings a := listable.placed.walkable.lt_rowStop valid
  have room := (Word.sub?_of_le (Nat.le_of_lt (UInt64.lt_iff_toNat_lt.1 before))).2
  rw [UInt64.lt_iff_toNat_lt] at before
  have given := listable.readable valid (Listing.rowStop s settings a - a).toNat (by omega)
  obtain ⟨⟨stop, line⟩, row⟩ : ∃ row, Listing.rowUnit? s settings a = some row := by
    simp [Listing.rowUnit?, given]
  have within := listable.placed.walkable.rowUnit?_within valid row
  simp only [Listing.unitAt?, valid, Bool.not_true, Bool.false_eq_true, if_false, uncoded, unnamed,
    row, Option.map_some, Option.some.injEq, exists_eq_left', true_and]
  exact within

theorem Listable.unitAt?_sits (listable : s.Listable) (settings : ListingSettings)
    (sits : s.Sits a) :
    ∃ unit, Listing.unitAt? s settings a = some unit ∧ unit.start = a ∧ a < unit.stop ∧
      unit.stop ≤ s.limit settings a := by
  unfold limit
  cases covered : Listing.coveredStop? s a with
  | none => exact listable.unitAt?_row sits.valid covered
  | some stop =>
    unfold Listing.coveredStop? at covered
    split at covered
    · rename_i function b architecture found
      cases covered
      obtain ⟨unit, shown, start, stop⟩ :=
        listable.placed.walkable.unitAt?_code settings sits.valid found
      have fits := listable.placed.walkable.stepLength_fits (codeBlockAt?_eq_some_iff.1 found).1
        (AddressRange.contains_iff.1 (codeBlock_covers found).2).2
      exact ⟨unit, shown, start, stop ▸ fits.1, stop ▸ fits.2⟩
    · obtain ⟨v, found, rfl⟩ := Option.map_eq_some_iff.1 covered
      obtain ⟨member, inside⟩ := variableContaining?_eq_some found
      have here := sits.inVariable member inside
      subst here
      obtain ⟨unit, shown, start, stop⟩ := listable.unitAt?_variable sits.valid member
      exact ⟨unit, shown, start, stop ▸ (AddressRange.contains_iff.1 inside).2,
        stop ▸ Std.le_refl _⟩

theorem Listable.unit_fits (listable : s.Listable) (sits : s.Sits a)
    (shown : Listing.unitAt? s settings a = some unit) :
    unit.start = a ∧ a < unit.stop ∧ unit.stop ≤ s.limit settings a := by
  obtain ⟨own, same, facts⟩ := listable.unitAt?_sits settings sits
  rw [Option.some.inj (shown.symm.trans same)]
  exact facts

end Space

end BinaryAtlas
