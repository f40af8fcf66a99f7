import BinaryAtlas.Proofs.Space.Filing

/-!
A span goes as far as its segment stays in effect and no further, whatever segments of both layers
were added before, empty ones included.
-/

set_option autoImplicit false

namespace BinaryAtlas

namespace SegmentMap

theorem spaced_empty : empty.Spaced :=
  ⟨SegmentLayer.sound_empty.spaced, SegmentLayer.sound_empty.spaced⟩

theorem put_spaced {m : SegmentMap} (spaced : m.Spaced) {s : Segment} (ordered : s.start ≤ s.stop)
    (new : (m.layer s.auto).get? s.start = none)
    (apart : ∀ rival, (m.layer s.auto).rival? s = some rival →
      rival.range.overlaps s.range = false) : (m.put s).Spaced := by
  have inserted := SegmentLayer.insert_spaced (spaced.layer s.auto) ordered new apart
  unfold put withLayer
  split
  · exact ⟨inserted, spaced.user⟩
  · exact ⟨spaced.auto, inserted⟩

theorem add_spaced {m after : SegmentMap} {s : Segment} {id : Nat} (spaced : m.Spaced)
    (ordered : s.start ≤ s.stop) (added : m.add s = .ok (after, id)) : after.Spaced := by
  obtain ⟨new, apart, rfl⟩ := add_eq_ok added
  apply put_spaced
  · exact ⟨spaced.auto, spaced.user⟩
  · exact ordered
  · exact new
  · exact apart

theorem remove_spaced {m : SegmentMap} (spaced : m.Spaced) (start : Word) (auto : Bool) :
    (m.remove start auto).1.Spaced := by
  have erased := SegmentLayer.erase_spaced (spaced.layer auto) start
  cases auto with
  | true => exact ⟨erased, spaced.user⟩
  | false => exact ⟨spaced.auto, erased⟩

/-- The maps that adding and removing segments lead to. Of a segment that is added only its range
is known to be one: it may be empty, and the bytes it stores need not fit into it. -/
inductive Assembled : SegmentMap → Prop where
  | empty : Assembled .empty
  | add {m after : SegmentMap} {s : Segment} {id : Nat} (assembled : Assembled m)
      (ordered : s.start ≤ s.stop) (added : m.add s = .ok (after, id)) : Assembled after
  | remove {m : SegmentMap} (assembled : Assembled m) (start : Word) (auto : Bool) :
      Assembled (m.remove start auto).1

variable {m : SegmentMap}

theorem Assembled.spaced (assembled : m.Assembled) : m.Spaced := by
  induction assembled with
  | empty => exact spaced_empty
  | add _ ordered added ih => exact add_spaced ih ordered added
  | remove _ start auto ih => exact remove_spaced ih start auto

theorem Assembled.filed (assembled : m.Assembled) : m.Filed := by
  induction assembled with
  | empty => exact empty_filed
  | add _ _ added ih => exact add_filed ih added
  | remove _ start auto ih => exact remove_filed ih start auto

/-- What cuts a span short is a user segment that is in effect where the span ends. -/
theorem span?_stop (spaced : m.Spaced) {a stop : Word} {s : Segment}
    (found : m.span? a = some (s, stop)) :
    stop = s.stop ∨
      m.autoSegments.at? a = some s ∧ ∃ t, m.userSegments.at? stop = some t := by
  unfold span? at found
  cases user : m.userSegments.at? a with
  | some t =>
    simp only [user, Option.some.injEq, Prod.mk.injEq] at found
    obtain ⟨rfl, rfl⟩ := found
    exact .inl rfl
  | none =>
    cases auto : m.autoSegments.at? a with
    | none => simp [user, auto] at found
    | some t =>
      cases next : m.userSegments.nextStart? a with
      | none =>
        simp only [user, auto, next, Option.some.injEq, Prod.mk.injEq] at found
        obtain ⟨rfl, rfl⟩ := found
        exact .inl rfl
      | some start =>
        simp only [user, auto, next, Option.some.injEq, Prod.mk.injEq, Word.min_eq] at found
        obtain ⟨rfl, rfl⟩ := found
        split
        · -- `nextStart?` passes over the empty segments, so the one here is in effect.
          obtain ⟨⟨cover, held, -, nonempty⟩, -⟩ :=
            SegmentLayer.nextStart?_eq_some spaced.user next
          have start_eq := spaced.user.filed held
          have effective : m.userSegments.at? start = some cover := by
            rw [SegmentLayer.at?_eq_some_iff spaced.user, start_eq]
            exact ⟨held, Std.le_refl start, nonempty⟩
          exact .inr ⟨rfl, cover, effective⟩
        · exact .inl rfl

theorem Filed.at?_sides (filed : m.Filed) {a b : Word} {s t : Segment}
    (auto : m.autoSegments.at? a = some s) (user : m.userSegments.at? b = some t) : s ≠ t := by
  obtain ⟨start, held⟩ := (Table.mem_values_iff _ s).1 (SegmentLayer.mem_of_at? auto).1
  obtain ⟨start', held'⟩ := (Table.mem_values_iff _ t).1 (SegmentLayer.mem_of_at? user).1
  have on_auto := (filed.segments (show (m.layer true).get? start = some s from held)).2
  have on_user := (filed.segments (show (m.layer false).get? start' = some t from held')).2
  rintro rfl
  simp [on_auto] at on_user

/-- Where a segment is in effect, its span is the longest run of addresses from there on at which it
is. -/
theorem span?_maximal (assembled : m.Assembled) (a : Word) :
    (m.span? a = none ↔ m.at? a = none) ∧
      ∀ s stop, m.span? a = some (s, stop) →
        m.at? a = some s ∧ a < stop ∧ stop ≤ s.stop ∧
          (∀ b, a ≤ b → b < stop → m.at? b = some s) ∧ m.at? stop ≠ some s := by
  refine ⟨span?_eq_none_iff m a, fun s stop found => ?_⟩
  have spaced := assembled.spaced
  obtain ⟨-, before, within, governs⟩ := span?_governs spaced found
  refine ⟨governs a (Std.le_refl a) before, before, within, governs, fun still => ?_⟩
  rcases span?_stop spaced found with rfl | ⟨auto, t, user⟩
  · exact Std.lt_irrefl (mem_of_at? still).2.2
  · have hidden : m.at? stop = some t := at?_eq_some_iff.2 (.inl user)
    rw [hidden] at still
    exact assembled.filed.at?_sides auto user (Option.some.inj still).symm

/-- A segment of the loader with a user's inside, and an empty one of the user's before that. -/
def coveredMap : SegmentMap :=
  ⟨.insert .empty 0x10 ⟨1, ⟨0x10, 0x1c⟩, 0, 8, .ofPermissions true true false, true, []⟩,
    .insert (.insert .empty 0x12 ⟨2, ⟨0x12, 0x12⟩, 0, 0, .ofPermissions true true false, false, []⟩)
      0x14 ⟨3, ⟨0x14, 0x16⟩, 0, 2, .ofPermissions true true false, false, []⟩,
    .empty, .empty, 3⟩

theorem coveredMap_assembled : coveredMap.Assembled := by
  have outer : Assembled _ := .add .empty
    (s := ⟨0, ⟨0x10, 0x1c⟩, 0, 8, .ofPermissions true true false, true, []⟩) (by decide) rfl
  have gap : Assembled _ := .add outer
    (s := ⟨0, ⟨0x12, 0x12⟩, 0, 0, .ofPermissions true true false, false, []⟩) (by decide) rfl
  exact .add gap
    (s := ⟨0, ⟨0x14, 0x16⟩, 0, 2, .ofPermissions true true false, false, []⟩) (by decide) rfl

theorem covered_span?_maximal :
    ∃ s, coveredMap.span? 0x11 = some (s, 0x14) ∧ s.stop = 0x1c ∧ coveredMap.at? 0x13 = some s ∧
      coveredMap.at? 0x14 ≠ some s := by
  obtain ⟨-, maximal⟩ := span?_maximal coveredMap_assembled 0x11
  have found : coveredMap.span? 0x11 =
      some (⟨1, ⟨0x10, 0x1c⟩, 0, 8, .ofPermissions true true false, true, []⟩, 0x14) := by
    decide +kernel
  obtain ⟨-, -, -, governs, ended⟩ := maximal _ _ found
  exact ⟨_, found, rfl, governs 0x13 (by decide) (by decide), ended⟩

end SegmentMap

end BinaryAtlas
