import BinaryAtlas.Declaration.Layout
import Mathlib.Data.List.Chain
import Mathlib.Order.Bounds.Basic

/-!
Natural alignment in numbers without a limit, and that a structure is laid out like that wherever
the whole of it fits a word.
-/

set_option autoImplicit false

namespace BinaryAtlas

namespace StructMember

/-- Where a member ends, which may be past the last word. -/
def stop (m : StructMember) : Nat := m.offset.toNat + m.type.width.toNat

end StructMember

namespace DataType

/-- The multiple of a step that a number is rounded up to. -/
def raise (step n : Nat) : Nat := if n % step = 0 then n else n + (step - n % step)

theorem raise_least {step : Nat} (positive : 0 < step) (n : Nat) :
    IsLeast {k | step ∣ k ∧ n ≤ k} (raise step n) := by
  have whole := Nat.div_add_mod n step
  have part := Nat.mod_lt n positive
  by_cases multiple : n % step = 0
  · rw [raise, if_pos multiple]
    exact ⟨⟨Nat.dvd_of_mod_eq_zero multiple, Nat.le_refl n⟩, fun _ found => found.2⟩
  · rw [raise, if_neg multiple]
    have next : n + (step - n % step) = step * (n / step + 1) := by rw [Nat.mul_add_one]; omega
    refine ⟨⟨⟨_, next⟩, Nat.le_add_right _ _⟩, ?_⟩
    rintro _ ⟨⟨q, rfl⟩, above⟩
    -- One multiple earlier lies below the number already.
    have later : n / step < q := by
      refine Nat.lt_of_not_le fun earlier => ?_
      have below := Nat.mul_le_mul_left step earlier
      omega
    rw [next]
    exact Nat.mul_le_mul_left step later

theorem le_raise {step : Nat} (positive : 0 < step) (n : Nat) : n ≤ raise step n :=
  (raise_least positive n).1.2

theorem roundUp_toNat {offset align : Word} (positive : 0 < align.toNat)
    (fits : raise align.toNat offset.toNat < 0x10000000000000000) :
    (roundUp offset align).toNat = raise align.toNat offset.toNat := by
  have part := Nat.mod_lt offset.toNat positive
  have rest := UInt64.toNat_mod offset align
  have small := align.toNat_lt
  by_cases multiple : offset.toNat % align.toNat = 0
  · have none_left : offset % align = 0 := UInt64.toNat_inj.1 (rest.trans multiple)
    rw [roundUp, raise, if_pos none_left, if_pos multiple]
  · have some_left : offset % align ≠ 0 := fun zero => multiple (rest ▸ congrArg UInt64.toNat zero)
    rw [raise, if_neg multiple] at fits
    have gap : (align - offset % align).toNat = align.toNat - offset.toNat % align.toNat := by
      rw [UInt64.toNat_sub_of_le _ _ (UInt64.le_iff_toNat_le.2 (by omega)), rest]
    rw [roundUp, raise, if_neg some_left, if_neg multiple, UInt64.toNat_add, gap,
      Nat.mod_eq_of_lt fits]

/-- Alignments are the powers of two from one to eight. -/
def IsAlignment (n : Nat) : Prop := n.isPowerOfTwo ∧ n ≤ 8

theorem IsAlignment.positive {n : Nat} (alignment : IsAlignment n) : 0 < n :=
  Nat.pos_of_isPowerOfTwo alignment.1

theorem IsAlignment.max {m n : Nat} (left : IsAlignment m) (right : IsAlignment n) :
    IsAlignment (max m n) := by
  obtain ordered | ordered := Nat.le_total m n
  · rwa [Nat.max_eq_right ordered]
  · rwa [Nat.max_eq_left ordered]

theorem one_isAlignment : IsAlignment 1 := ⟨⟨0, rfl⟩, by decide⟩

theorem alignOfWidth_isAlignment (width : Word) : IsAlignment (alignOfWidth width).toNat := by
  rw [alignOfWidth]
  split
  · exact ⟨⟨3, rfl⟩, by decide⟩
  · split
    · exact ⟨⟨2, rfl⟩, by decide⟩
    · split
      · exact ⟨⟨1, rfl⟩, by decide⟩
      · exact one_isAlignment

mutual

theorem align_isAlignment : ∀ type : DataType, IsAlignment type.align.toNat
  | .record _ members _ => alignAll_isAlignment members
  | .array element _ => align_isAlignment element
  | .void | .function _ _ _ | .bool => one_isAlignment
  | .integer w _ | .float w | .pointer _ w | .enumeration _ _ w | .named _ w =>
    alignOfWidth_isAlignment w

theorem alignAll_isAlignment :
    ∀ members : List StructMember, IsAlignment (alignAll members).toNat
  | [] => one_isAlignment
  | .mk _ _ type :: rest => by
    rw [alignAll, Word.toNat_max]
    exact (align_isAlignment type).max (alignAll_isAlignment rest)

end

/-- The largest alignment among types, one if there are none. -/
def largestAlign (types : List DataType) : Nat := (types.map (·.align.toNat)).max?.getD 1

theorem alignAll_eq_largest (members : List StructMember) :
    (alignAll members).toNat = largestAlign (members.map (·.type)) := by
  induction members with
  | nil => rfl
  | cons m rest ih =>
    obtain ⟨name, offset, type⟩ := m
    have least := (align_isAlignment type).positive
    rw [alignAll, Word.toNat_max, ih]
    simp only [largestAlign, List.map_cons, List.max?_cons, Option.getD_some]
    cases ((rest.map (·.type)).map (·.align.toNat)).max? with
    | none => exact Nat.max_eq_left least
    | some others => rfl

theorem largestAlign_isAlignment (members : List StructMember) :
    IsAlignment (largestAlign (members.map (·.type))) :=
  alignAll_eq_largest members ▸ alignAll_isAlignment members

/-- Where members that start at a place end, in numbers without a limit. -/
def naturalStop (place : Nat) : List DataType → Nat
  | [] => place
  | type :: rest => naturalStop (raise type.align.toNat place + type.width.toNat) rest

/-- The width of a structure of such members, in numbers without a limit. -/
def naturalWidth (types : List DataType) : Nat :=
  raise (largestAlign types) (naturalStop 0 types)

theorem le_naturalStop (place : Nat) (types : List DataType) : place ≤ naturalStop place types := by
  induction types generalizing place with
  | nil => exact Nat.le_refl place
  | cons type rest ih =>
    have start := le_raise (align_isAlignment type).positive place
    have stop := ih (raise type.align.toNat place + type.width.toNat)
    rw [naturalStop]
    omega

/-- Members are each at the least multiple of their alignment from a place on, which is where the
one before ends. -/
def Placed : Nat → List StructMember → Prop
  | _, [] => True
  | place, m :: rest =>
    IsLeast {k | m.type.align.toNat ∣ k ∧ place ≤ k} m.offset.toNat ∧ Placed m.stop rest

namespace Placed

variable {place : Nat} {members : List StructMember}

theorem le_offset (placed : Placed place members) {m : StructMember} (member : m ∈ members) :
    place ≤ m.offset.toNat := by
  induction members generalizing place with
  | nil => exact absurd member List.not_mem_nil
  | cons first rest ih =>
    have reached : place ≤ first.offset.toNat := placed.1.1.2
    obtain rfl | later := List.mem_cons.1 member
    · exact reached
    · have behind := ih placed.2 later
      rw [StructMember.stop] at behind
      omega

theorem apart (placed : Placed place members) :
    members.Pairwise fun m n => m.stop ≤ n.offset.toNat := by
  induction members generalizing place with
  | nil => exact .nil
  | cons first rest ih =>
    exact .cons (fun _ later => placed.2.le_offset later) (ih placed.2)

theorem next (placed : Placed place members) : members.IsChain fun m n =>
    IsLeast {k | n.type.align.toNat ∣ k ∧ m.stop ≤ k} n.offset.toNat := by
  induction members generalizing place with
  | nil => exact .nil
  | cons first rest ih =>
    cases rest with
    | nil => exact .singleton first
    | cons second others => exact .cons_cons placed.2.1 (ih placed.2)

theorem naturalStop_eq (placed : Placed place members) :
    naturalStop place (members.map (·.type)) = (members.getLast?.map (·.stop)).getD place := by
  induction members generalizing place with
  | nil => rfl
  | cons first rest ih =>
    obtain ⟨start, others⟩ := placed
    have positive := (align_isAlignment first.type).positive
    rw [List.map_cons, naturalStop, (raise_least positive place).unique start, ← StructMember.stop,
      ih others, List.getLast?_cons]
    cases rest.getLast? <;> rfl

end Placed

theorem placeFrom_fields (offset : Word) (fields : List (String × DataType)) :
    (placeFrom offset fields).1.map (fun m => (m.name, m.type)) = fields := by
  induction fields generalizing offset with
  | nil => rfl
  | cons field rest ih =>
    rw [placeFrom, List.map_cons, ih]
    rfl

theorem placeFrom_placed {offset : Word} {fields : List (String × DataType)}
    (fits : naturalStop offset.toNat (fields.map (·.2)) < 0x10000000000000000) :
    Placed offset.toNat (placeFrom offset fields).1 ∧
      (placeFrom offset fields).2.toNat = naturalStop offset.toNat (fields.map (·.2)) := by
  induction fields generalizing offset with
  | nil => exact ⟨trivial, rfl⟩
  | cons field rest ih =>
    obtain ⟨name, type⟩ := field
    have positive := (align_isAlignment type).positive
    have room : naturalStop (raise type.align.toNat offset.toNat + type.width.toNat)
        (rest.map (·.2)) < 0x10000000000000000 := fits
    have below := le_naturalStop (raise type.align.toNat offset.toNat + type.width.toNat)
      (rest.map (·.2))
    have start : (roundUp offset type.align).toNat = raise type.align.toNat offset.toNat :=
      roundUp_toNat positive (by omega)
    have stop : (roundUp offset type.align + type.width).toNat =
        raise type.align.toNat offset.toNat + type.width.toNat := by
      rw [UInt64.toNat_add, start, Nat.mod_eq_of_lt (by omega)]
    rw [← stop] at room
    obtain ⟨others, last⟩ := ih room
    refine ⟨⟨start ▸ raise_least positive offset.toNat, ?_⟩, ?_⟩
    · have ends : (StructMember.mk name (roundUp offset type.align) type).stop =
          (roundUp offset type.align + type.width).toNat := by
        rw [stop, ← start]
        rfl
      rw [ends]
      exact others
    · rw [stop] at last
      exact last

/-- The members and the width of a structure are those of natural alignment. -/
structure NaturallyLaid (members : List StructMember) (width : Word) : Prop where
  aligned : ∀ m ∈ members, IsAlignment m.type.align.toNat
  first : ∀ m ∈ members.head?, m.offset = 0
  next : members.IsChain fun m n =>
    IsLeast {k | n.type.align.toNat ∣ k ∧ m.stop ≤ k} n.offset.toNat
  apart : members.Pairwise fun m n => m.stop ≤ n.offset.toNat
  largest : IsAlignment (largestAlign (members.map (·.type)))
  whole : IsLeast {k | largestAlign (members.map (·.type)) ∣ k ∧
    (members.getLast?.map (·.stop)).getD 0 ≤ k} width.toNat

theorem Placed.naturallyLaid {members : List StructMember} (placed : Placed 0 members)
    {width : Word} (whole : width.toNat = naturalWidth (members.map (·.type))) :
    NaturallyLaid members width where
  aligned m _ := align_isAlignment m.type
  first m head := by
    cases members with
    | nil => cases head
    | cons first rest =>
      obtain rfl := Option.some.inj head
      have least : IsLeast {k | first.type.align.toNat ∣ k ∧ 0 ≤ k} 0 :=
        ⟨⟨Nat.dvd_zero _, Nat.le_refl 0⟩, fun _ _ => Nat.zero_le _⟩
      exact UInt64.toNat_inj.1 (placed.1.unique least)
  next := placed.next
  apart := placed.apart
  largest := largestAlign_isAlignment members
  whole := by
    rw [whole, naturalWidth, placed.naturalStop_eq]
    exact raise_least (largestAlign_isAlignment members).positive _

/-- A structure keeps its fields as they are given, and is laid out as in numbers without a limit if
that fits. -/
theorem laidOut_natural (name : Option String) (fields : List (String × DataType)) :
    ∃ members width, laidOut name fields = .record name members width ∧
      members.map (fun m => (m.name, m.type)) = fields ∧
        (naturalWidth (members.map (·.type)) < 0x10000000000000000 →
          NaturallyLaid members width) := by
  refine ⟨_, _, rfl, placeFrom_fields 0 fields, fun fits => ?_⟩
  have types : (placeFrom 0 fields).1.map (·.type) = fields.map (·.2) := by
    conv_rhs => rw [← placeFrom_fields 0 fields]
    simp
  have positive := (alignAll_isAlignment (placeFrom 0 fields).1).positive
  rw [naturalWidth, ← alignAll_eq_largest, types] at fits
  have room : naturalStop (0 : Word).toNat (fields.map (·.2)) < 0x10000000000000000 :=
    Nat.lt_of_le_of_lt (le_raise positive _) fits
  obtain ⟨placed, stop⟩ := placeFrom_placed room
  refine placed.naturallyLaid ?_
  rw [naturalWidth, ← alignAll_eq_largest, types, ← UInt64.toNat_zero, ← stop]
  rw [← UInt64.toNat_zero, ← stop] at fits
  exact roundUp_toNat positive fits

end DataType

end BinaryAtlas
