import BinaryAtlas.Proofs.SegmentMap.Accounts
import BinaryAtlas.Proofs.SegmentMap.Reading

/-!
From a stored byte back to an address: whatever segments share the byte or hide each other, the
search finds an address that is mapped to it if there is one.
-/

set_option autoImplicit false

namespace BinaryAtlas

namespace Segment

variable {s : Segment}

theorem dataOffsetOf?_eq_some_iff (wellFormed : s.WellFormed) {a offset : Word} :
    s.dataOffsetOf? a = some offset ↔
      s.start.toNat ≤ a.toNat ∧ a.toNat < s.start.toNat + s.dataLength.toNat ∧
        offset.toNat + s.start.toNat = s.dataOffset.toNat + a.toNat := by
  by_cases from_start : s.start.toNat ≤ a.toNat
  · by_cases stored : a.toNat < s.start.toNat + s.dataLength.toNat
    · obtain ⟨found, place⟩ := dataOffsetOf?_stored wellFormed from_start stored
      rw [found, Option.some.injEq, ← UInt64.toNat_inj, place]
      omega
    · rw [dataOffsetOf?_unstored from_start (Nat.not_lt.1 stored)]
      simp [stored]
  · have outside : s.contains a = false :=
      Bool.eq_false_iff.2 fun inside =>
        from_start (UInt64.le_iff_toNat_le.1 (contains_iff.1 inside).1)
    simp [dataOffsetOf?, outside, from_start]

theorem addressOfData?_eq_some_iff (wellFormed : s.WellFormed) {a offset : Word} :
    s.addressOfData? offset = some a ↔
      s.dataOffset.toNat ≤ offset.toNat ∧
        offset.toNat < s.dataOffset.toNat + s.dataLength.toNat ∧
        a.toNat + s.dataOffset.toNat = s.start.toNat + offset.toNat := by
  have within := wellFormed.within
  have mapped := wellFormed.stored
  have stop_small := s.stop.toNat_lt
  have dataEnd : s.dataEnd.toNat = s.dataOffset.toNat + s.dataLength.toNat := by
    rw [Segment.dataEnd, Word.toNat_addCapped]
    omega
  simp only [addressOfData?, Bool.and_eq_true, decide_eq_true_eq, UInt64.le_iff_toNat_le,
    UInt64.lt_iff_toNat_lt, dataEnd, Option.ite_none_right_eq_some, Option.some.injEq, and_assoc]
  refine and_congr_right fun from_start => and_congr_right fun stored => ?_
  have gap := (Word.sub?_of_le from_start).2
  have place := (Word.add?_of_lt (a := s.start) (b := offset - s.dataOffset) (by omega)).2
  rw [← UInt64.toNat_inj, place, gap]
  omega

/-- Within a segment the two ways between addresses and stored bytes undo each other. -/
theorem addressOfData?_iff_dataOffsetOf? (wellFormed : s.WellFormed) {a offset : Word} :
    s.addressOfData? offset = some a ↔ s.dataOffsetOf? a = some offset := by
  rw [addressOfData?_eq_some_iff wellFormed, dataOffsetOf?_eq_some_iff wellFormed]
  omega

end Segment

namespace SegmentMap

variable {m : SegmentMap}

/-- The segment in effect at an address stores what it holds there at an offset. -/
def Backs (m : SegmentMap) (a offset : Word) : Prop :=
  ∃ s, m.at? a = some s ∧ s.dataOffsetOf? a = some offset

theorem backs_iff {a offset : Word} :
    m.Backs a offset ↔ ((m.at? a).bind (·.dataOffsetOf? a) == some offset) = true := by
  simp [Backs, Option.bind_eq_some_iff]

theorem Sound.wellFormed (sound : m.Sound) {s : Segment} (member : s ∈ m.allSegments) :
    s.WellFormed := by
  obtain ⟨auto, start, held⟩ := mem_allSegments_iff.1 member
  exact (sound.layer auto).wellFormed held

/-- What is in effect at an address is among the segments that are asked, hidden ones or not, and it
answers with just this address. -/
theorem candidate_of_backs (sound : m.Sound) {a offset : Word} (backs : m.Backs a offset) :
    a ∈ m.allSegments.filterMap (·.addressOfData? offset) := by
  obtain ⟨s, effective, maps⟩ := backs
  have member := (mem_of_at? effective).1
  have answer := (Segment.addressOfData?_iff_dataOffsetOf? (sound.wellFormed member)).2 maps
  exact List.mem_filterMap.2 ⟨s, member, answer⟩

/-- An address that is given for a stored byte is mapped to it, and if none is given, none is. -/
theorem addressOfData?_exact (built : m.Built) (offset : Word) :
    (∀ a, m.addressOfData? offset = some a → m.Backs a offset) ∧
      (m.addressOfData? offset = none → ∀ a, ¬ m.Backs a offset) := by
  constructor
  · intro a found
    rw [addressOfData?, List.find?_eq_some_iff_append] at found
    exact backs_iff.2 found.1
  · intro missing a backs
    have candidate := candidate_of_backs (built_sound built) backs
    have rejected := List.find?_eq_none.1 missing a candidate
    exact rejected (backs_iff.1 backs)

/-- Two segments store the same bytes, the second of them with a tail that is not stored. One of the
user's lies over most of the first, itself with such a tail. -/
def aliasedMap : SegmentMap :=
  ⟨.insert (.insert .empty 0x10 ⟨1, ⟨0x10, 0x18⟩, 0, 8, .ofPermissions true true false, true, []⟩)
      0x20 ⟨2, ⟨0x20, 0x28⟩, 0, 4, .ofPermissions true true false, true, []⟩,
    .insert .empty 0x10 ⟨3, ⟨0x10, 0x16⟩, 0x40, 2, .ofPermissions true true false, false, []⟩,
    .empty, .empty, 3⟩

theorem aliasedMap_built : Built aliasedMap := by
  have first : Segment.ofLayout 0x10 8 0 8 (.ofPermissions true true false) true = .ok
      ⟨0, ⟨0x10, 0x18⟩, 0, 8, .ofPermissions true true false, true, []⟩ := by
    rfl
  have second : Segment.ofLayout 0x20 8 0 4 (.ofPermissions true true false) true = .ok
      ⟨0, ⟨0x20, 0x28⟩, 0, 4, .ofPermissions true true false, true, []⟩ := by
    rfl
  have upper : Segment.ofLayout 0x10 6 0x40 2 (.ofPermissions true true false) false = .ok
      ⟨0, ⟨0x10, 0x16⟩, 0x40, 2, .ofPermissions true true false, false, []⟩ := by
    rfl
  exact .add (.add (.add .empty first rfl) second rfl) upper rfl

theorem aliased_addressOfData?_exact :
    aliasedMap.addressOfData? 2 = some 0x22 ∧ aliasedMap.Backs 0x22 2 ∧
      aliasedMap.addressOfData? 5 = none ∧ ∀ a, ¬ aliasedMap.Backs a 5 := by
  have hidden : aliasedMap.addressOfData? 2 = some 0x22 := by decide
  have unmapped : aliasedMap.addressOfData? 5 = none := by decide
  exact ⟨hidden, (addressOfData?_exact aliasedMap_built 2).1 _ hidden, unmapped,
    (addressOfData?_exact aliasedMap_built 5).2 unmapped⟩

end SegmentMap

end BinaryAtlas
