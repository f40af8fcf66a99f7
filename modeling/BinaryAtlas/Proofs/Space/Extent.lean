import BinaryAtlas.Proofs.Listing.Walking
import BinaryAtlas.Proofs.SegmentMap.Spans
import BinaryAtlas.Proofs.Space.SegmentTable

/-!
What is nearest to an address of a mapped space, and between which bounds all of it lies. The
nearest addresses are right wherever segments keep apart. The bounds are those of the mapped
addresses unless an empty segment lies beyond them.
-/

set_option autoImplicit false

namespace BinaryAtlas

namespace SegmentMap

variable {m : SegmentMap}

/-- An empty segment lies above all that is mapped, and something that is not in between. -/
def Overhangs (m : SegmentMap) : Prop :=
  ∃ g ∈ m.allSegments, g.start = g.stop ∧ 0 < g.start ∧
    ∀ a, m.isValid a = true → a.toNat + 1 < g.start.toNat

theorem stop_attained : m.stop = 0 ∨ ∃ g ∈ m.allSegments, g.stop = m.stop := by
  cases found : (m.allSegments.map (·.stop)).max? with
  | none => exact .inl (by rw [stop, found]; rfl)
  | some last =>
    have stop_eq : m.stop = last := by rw [stop, found]; rfl
    obtain ⟨g, member, same⟩ := List.mem_map.1 (List.max?_eq_some_iff.1 found).1
    exact .inr ⟨g, member, same.trans stop_eq.symm⟩

theorem start_of_unmapped (spaced : m.Spaced) (nothing : ∀ a, m.isValid a = false) :
    m.start = 0 := by
  have none_kept : m.allSegments.filter (!·.range.isEmpty) = [] := by
    refine List.filter_eq_nil_iff.2 fun g member nonempty => ?_
    have valid := isValid_of_begins spaced
      ⟨g, member, rfl, (not_isEmpty_iff spaced member).1 nonempty⟩
    simp [nothing] at valid
  rw [start, none_kept]
  rfl

theorem not_overhangs_of_last {a : Word} (valid : m.isValid a = true) (last : m.stop - 1 = a) :
    ¬ m.Overhangs := by
  rintro ⟨g, member, empty, -, above⟩
  have beyond := above a valid
  have within := UInt64.le_iff_toNat_le.1 (stop_le member)
  have positive : m.stop.toNat ≠ 0 := by rw [← empty] at within; omega
  have one : (1 : Word).toNat = 1 := rfl
  have place := (Word.sub?_of_le (a := m.stop) (b := 1) (by omega)).2
  rw [last] at place
  rw [← empty] at within
  omega

theorem last_isValid (spaced : m.Spaced) (level : ¬ m.Overhangs) {a : Word}
    (valid : m.isValid a = true) : m.isValid (m.stop - 1) = true := by
  have one : (1 : Word).toNat = 1 := rfl
  have below := UInt64.lt_iff_toNat_lt.1 (lt_stop valid)
  have place := (Word.sub?_of_le (a := m.stop) (b := 1) (by omega)).2
  obtain nothing | ⟨g, member, ends⟩ := m.stop_attained
  · rw [nothing] at below
    exact absurd below (Nat.not_lt_zero _)
  · obtain nonempty | empty := Std.le_iff_lt_or_eq.1 (spaced.ordered member)
    · -- The segment that ends last holds its own last address.
      refine (isValid_iff spaced).2 ⟨g, member, ?_, ?_⟩
      · rw [UInt64.lt_iff_toNat_lt, ends] at nonempty
        rw [UInt64.le_iff_toNat_le]
        omega
      · rw [UInt64.lt_iff_toNat_lt, ends]
        omega
    · -- It is empty and does not overhang, so what is mapped reaches up to it.
      have reached : ∃ b, m.isValid b = true ∧ g.start.toNat ≤ b.toNat + 1 := by
        by_contra none_reaches
        refine level ⟨g, member, empty, ?_, fun b mapped => ?_⟩
        · rw [empty, ends, UInt64.lt_iff_toNat_lt]
          exact Nat.lt_of_le_of_lt (Nat.zero_le _) below
        · by_contra reaches
          exact none_reaches ⟨b, mapped, by omega⟩
      obtain ⟨b, mapped, reaches⟩ := reached
      have behind := UInt64.lt_iff_toNat_lt.1 (lt_stop mapped)
      rw [empty, ends] at reaches
      have same : m.stop - 1 = b := UInt64.toNat_inj.1 (by omega)
      rw [same]
      exact mapped

end SegmentMap

namespace Space

variable {s : Space} {label : String}

/-- What a space says of the addresses next to any other one is so. -/
structure SkipsGaps (s : Space) : Prop where
  next : ∀ a, ∃ found, Word.Least (fun b => a ≤ b ∧ s.isValid b = true) found ∧
    s.nextValid a = found.getD s.stop
  ascending : ∀ a b, a ≤ b → (∃ c, b ≤ c ∧ s.isValid c = true) → s.nextValid a ≤ s.nextValid b
  nextStart : ∀ a, Word.Least (fun b => a < b ∧ s.map.Begins b) (s.map.nextStartAfter? a)
  previous : ∀ a, Word.Greatest (fun b => b < a ∧ s.isValid b = true)
    (Listing.previousValid? s a)

theorem nextValid_least (mapped : s.backend = .mapped label) (spaced : s.map.Spaced) (a : Word) :
    ∃ found, Word.Least (fun b => a ≤ b ∧ s.isValid b = true) found ∧
      s.nextValid a = found.getD s.stop := by
  refine ⟨s.map.nextValid? a, ?_, nextValid_mapped mapped a⟩
  refine (SegmentMap.nextValid?_least spaced a).congr fun b => ?_
  rw [isValid_mapped mapped]

theorem nextValid_ascending
    (least : ∀ a, ∃ found, Word.Least (fun b => a ≤ b ∧ s.isValid b = true) found ∧
      s.nextValid a = found.getD s.stop) {a b c : Word} (ordered : a ≤ b) (reached : b ≤ c)
    (valid : s.isValid c = true) : s.nextValid a ≤ s.nextValid b := by
  obtain ⟨first, first_least, first_eq⟩ := least a
  obtain ⟨second, second_least, second_eq⟩ := least b
  cases second with
  | none => exact absurd ⟨reached, valid⟩ (second_least c)
  | some next =>
    -- What follows `b` follows `a` as well, so it is not below what comes first behind `a`.
    have behind : a ≤ next ∧ s.isValid next = true :=
      ⟨Std.le_trans ordered second_least.1.1, second_least.1.2⟩
    cases first with
    | none => exact absurd behind (first_least next)
    | some nearest =>
      rw [first_eq, second_eq]
      exact first_least.2 next behind

end Space

namespace SegmentMap

def bareSegment (id : Nat) (start stop : Word) (auto : Bool) : Segment :=
  ⟨id, ⟨start, stop⟩, 0, 0, .ofPermissions true false false, auto, []⟩

/-- Two neighbours with one of the user's nested in the first, one that a user's hides, and two
empty ones, of which one lies inside and the other at the end of all. -/
def terracedMap : SegmentMap :=
  ⟨.insert (.insert (.insert .empty 0x10 (bareSegment 1 0x10 0x1c true))
      0x1c (bareSegment 2 0x1c 0x20 true)) 0x30 (bareSegment 3 0x30 0x34 true),
    .insert (.insert (.insert (.insert .empty 0x12 (bareSegment 4 0x12 0x12 false))
      0x14 (bareSegment 5 0x14 0x16 false)) 0x2e (bareSegment 6 0x2e 0x34 false))
      0x34 (bareSegment 7 0x34 0x34 false),
    .empty, .empty, 7⟩

theorem terracedMap_assembled : terracedMap.Assembled := by
  have first : Assembled _ := .add .empty (s := bareSegment 0 0x10 0x1c true) (by decide) rfl
  have second : Assembled _ := .add first (s := bareSegment 0 0x1c 0x20 true) (by decide) rfl
  have third : Assembled _ := .add second (s := bareSegment 0 0x30 0x34 true) (by decide) rfl
  have inner : Assembled _ := .add third (s := bareSegment 0 0x12 0x12 false) (by decide) rfl
  have nested : Assembled _ := .add inner (s := bareSegment 0 0x14 0x16 false) (by decide) rfl
  have upper : Assembled _ := .add nested (s := bareSegment 0 0x2e 0x34 false) (by decide) rfl
  exact .add upper (s := bareSegment 0 0x34 0x34 false) (by decide) rfl

/-- A segment of four bytes, and a user's empty one far above it. -/
def overhungMap : SegmentMap :=
  ⟨.insert .empty 0x10 (bareSegment 1 0x10 0x14 true),
    .insert .empty 0x20 (bareSegment 2 0x20 0x20 false), .empty, .empty, 2⟩

theorem overhungMap_assembled : overhungMap.Assembled := by
  have first : Assembled _ := .add .empty (s := bareSegment 0 0x10 0x14 true) (by decide) rfl
  exact .add first (s := bareSegment 0 0x20 0x20 false) (by decide) rfl

end SegmentMap

namespace Space

variable {s : Space} {label : String}

def terracedSpace : Space := { emptySpace with map := SegmentMap.terracedMap }

/-- The bounds of a space are those of its valid addresses. -/
structure TightlyBounded (s : Space) : Prop where
  within : ∀ a, s.isValid a = true → s.start ≤ a ∧ a < s.stop
  reached : (∃ a, s.isValid a = true) → s.isValid s.start = true ∧ s.isValid (s.stop - 1) = true
  closed : (∀ a, s.isValid a = false) → s.start = s.stop

theorem start_mapped (mapped : s.backend = .mapped label) : s.start = s.map.start := by
  rw [start, mapped]
  rfl

theorem stop_mapped (mapped : s.backend = .mapped label) : s.stop = s.map.stop := by
  rw [stop_eq, mapped]

theorem bounds_closed (mapped : s.backend = .mapped label) (spaced : s.map.Spaced)
    (level : ¬ s.map.Overhangs) (nothing : ∀ a, s.map.isValid a = false) : s.start = s.stop := by
  rw [start_mapped mapped, stop_mapped mapped, SegmentMap.start_of_unmapped spaced nothing]
  obtain none_there | ⟨g, member, ends⟩ := s.map.stop_attained
  · exact none_there.symm
  · by_contra other
    have empty : g.start = g.stop := by
      by_contra differs
      have nonempty := Std.lt_of_le_of_ne (spaced.ordered member) differs
      have valid := SegmentMap.isValid_of_begins spaced ⟨g, member, rfl, nonempty⟩
      simp [nothing] at valid
    refine level ⟨g, member, empty, ?_, fun a valid => by simp [nothing] at valid⟩
    rw [empty, ends, UInt64.lt_iff_toNat_lt]
    exact Nat.pos_of_ne_zero fun zero => other (UInt64.toNat_inj.1 zero).symm

theorem level_of_closed (mapped : s.backend = .mapped label) (spaced : s.map.Spaced)
    (nothing : ∀ a, s.map.isValid a = false) (closed : s.start = s.stop) :
    ¬ s.map.Overhangs := by
  rintro ⟨g, member, empty, positive, -⟩
  have within := SegmentMap.stop_le member
  rw [start_mapped mapped, stop_mapped mapped, SegmentMap.start_of_unmapped spaced nothing]
    at closed
  rw [← empty, ← closed] at within
  exact Std.lt_irrefl (Std.lt_of_lt_of_le positive within)

/-- All that is valid lies between the bounds, and the lower one is valid if anything is. Both
bounds are tight exactly if no empty segment overhangs what is mapped. -/
theorem bounds_tight_iff (mapped : s.backend = .mapped label) (assembled : s.map.Assembled) :
    (∀ a, s.isValid a = true → s.start ≤ a ∧ a < s.stop) ∧
      ((∃ a, s.isValid a = true) → s.isValid s.start = true) ∧
      (s.TightlyBounded ↔ ¬ s.map.Overhangs) := by
  have spaced := assembled.spaced
  have same : s.isValid = s.map.isValid := funext (isValid_mapped mapped)
  have within : ∀ a, s.isValid a = true → s.start ≤ a ∧ a < s.stop := by
    intro a valid
    rw [same] at valid
    rw [start_mapped mapped, stop_mapped mapped]
    exact ⟨(SegmentMap.start_least spaced valid).2, SegmentMap.lt_stop valid⟩
  have first : (∃ a, s.isValid a = true) → s.isValid s.start = true := by
    rintro ⟨a, valid⟩
    rw [same] at valid ⊢
    rw [start_mapped mapped]
    exact (SegmentMap.start_least spaced valid).1
  refine ⟨within, first, fun tight => ?_, fun level => ⟨within, fun mapped_somewhere => ?_, ?_⟩⟩
  · by_cases somewhere : ∃ a, s.isValid a = true
    · have last := (tight.reached somewhere).2
      rw [same, stop_mapped mapped] at last
      exact SegmentMap.not_overhangs_of_last last rfl
    · have nothing : ∀ a, s.isValid a = false := by simpa using somewhere
      exact level_of_closed mapped spaced (same ▸ nothing) (tight.closed nothing)
  · refine ⟨first mapped_somewhere, ?_⟩
    obtain ⟨a, valid⟩ := mapped_somewhere
    rw [same] at valid ⊢
    rw [stop_mapped mapped]
    exact SegmentMap.last_isValid spaced level valid
  · exact fun nothing => bounds_closed mapped spaced level (same ▸ nothing)

theorem terraced_bounds_tight :
    terracedSpace.start = 0x10 ∧ terracedSpace.stop = 0x34 ∧
      ¬ terracedSpace.map.Overhangs ∧ terracedSpace.TightlyBounded := by
  obtain ⟨-, -, tight⟩ := bounds_tight_iff (s := terracedSpace) rfl SegmentMap.terracedMap_assembled
  have level : ¬ terracedSpace.map.Overhangs := by
    rintro ⟨g, member, -, -, above⟩
    have beyond := above 0x33 (by decide)
    have low : ∀ g ∈ SegmentMap.terracedMap.allSegments, g.start.toNat ≤ 0x34 := by decide
    exact absurd (low g member) (Nat.not_le.2 beyond)
  exact ⟨by decide, by decide, level, tight.2 level⟩

/-- An empty segment above all others moves the end of a space to where nothing is mapped. -/
theorem empty_segment_moves_end : ∃ s : Space, s.backend = .mapped "" ∧ s.map.Assembled ∧
    s.isValid 0x13 = true ∧ s.stop = 0x20 ∧ s.isValid 0x1f = false ∧ ¬ s.TightlyBounded := by
  refine ⟨{ emptySpace with map := SegmentMap.overhungMap }, rfl,
    SegmentMap.overhungMap_assembled, by decide, by decide, by decide, fun tight => ?_⟩
  have last := (tight.reached ⟨0x13, by decide⟩).2
  exact absurd last (by decide)

end Space

end BinaryAtlas
