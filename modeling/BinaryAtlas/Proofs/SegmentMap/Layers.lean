import BinaryAtlas.Proofs.TableSearch
import BinaryAtlas.SegmentMap

/-!
Segments that are added one by one keep out of each other's way. So the segment at an address is
the only one of its layer there, and what is in effect at an address stays so up to the end of a
span.
-/

set_option autoImplicit false

namespace BinaryAtlas

namespace Segment

/-- Neither the addresses nor the stored bytes pass the end of their range. -/
structure WellFormed (s : Segment) : Prop where
  stored : s.start.toNat + s.dataLength.toNat ≤ s.stop.toNat
  within : s.dataOffset.toNat + s.dataLength.toNat < 0x10000000000000000

theorem ofLayout_wellFormed {start length dataOffset dataLength : Word} {flags : SegmentFlags}
    {auto : Bool} {s : Segment}
    (made : ofLayout start length dataOffset dataLength flags auto = .ok s) : s.WellFormed := by
  unfold ofLayout at made
  split at made
  · cases made
  · rename_i fits
    split at made
    · cases made
    · cases made
    · rename_i stop last stop_eq last_eq
      cases made
      have stop_toNat := Word.add?_eq_some_iff.1 stop_eq
      have last_toNat := Word.add?_eq_some_iff.1 last_eq
      have := UInt64.le_iff_toNat_le.1 (UInt64.not_lt.1 fits)
      have := last.toNat_lt
      constructor
      · show start.toNat + dataLength.toNat ≤ stop.toNat
        omega
      · show dataOffset.toNat + dataLength.toNat < 0x10000000000000000
        omega

theorem WellFormed.ordered {s : Segment} (wellFormed : s.WellFormed) : s.start ≤ s.stop := by
  have := wellFormed.stored
  rw [UInt64.le_iff_toNat_le]
  omega

theorem contains_iff {s : Segment} {a : Word} : s.contains a = true ↔ s.start ≤ a ∧ a < s.stop :=
  AddressRange.contains_iff

end Segment

namespace SegmentLayer

/-- Segments under their starts that keep apart. What bytes they store does not matter. -/
structure Spaced (layer : SegmentLayer) : Prop where
  filed : ∀ {start s}, layer.get? start = some s → s.start = start
  ordered : ∀ {start s}, layer.get? start = some s → s.start ≤ s.stop
  apart : ∀ {start s start' s'}, layer.get? start = some s → layer.get? start' = some s' →
    start < start' → s.stop ≤ start'

structure Sound (layer : SegmentLayer) : Prop where
  filed : ∀ {start s}, layer.get? start = some s → s.start = start
  wellFormed : ∀ {start s}, layer.get? start = some s → s.WellFormed
  apart : ∀ {start s start' s'}, layer.get? start = some s → layer.get? start' = some s' →
    start < start' → s.stop ≤ start'

theorem sound_empty : Sound .empty := by
  constructor <;> simp

variable {layer : SegmentLayer}

theorem Sound.spaced (sound : layer.Sound) : layer.Spaced where
  filed := sound.filed
  ordered held := (sound.wellFormed held).ordered
  apart := sound.apart

theorem Spaced.sound (spaced : layer.Spaced)
    (wellFormed : ∀ {start s}, layer.get? start = some s → s.WellFormed) : layer.Sound :=
  ⟨spaced.filed, wellFormed, spaced.apart⟩

theorem at?_eq_some_iff (spaced : layer.Spaced) {a : Word} {s : Segment} :
    layer.at? a = some s ↔ layer.get? s.start = some s ∧ s.start ≤ a ∧ a < s.stop := by
  unfold at?
  cases found : layer.atOrBelow? a with
  | none =>
    have none := (Table.atOrBelow?_eq_none_iff layer a).1 found
    simp only [reduceCtorEq, false_iff]
    exact fun ⟨held, reached, _⟩ => none _ _ held reached
  | some entry =>
    obtain ⟨start, last⟩ := entry
    obtain ⟨held, reached, greatest⟩ := (Table.atOrBelow?_eq_some_iff layer start a last).1 found
    have filed := spaced.filed held
    simp only [Option.ite_none_right_eq_some, Segment.contains_iff, Option.some.injEq]
    constructor
    · rintro ⟨covers, rfl⟩
      exact ⟨by rwa [filed], covers⟩
    · rintro ⟨other, from_start, to_stop⟩
      -- A segment with a lower start ends before the nearest one begins.
      have same : s.start = start := by
        have := greatest _ _ other from_start
        have := @Spaced.apart _ spaced _ _ _ _ other held
        grind
      rw [same, held] at other
      cases other
      exact ⟨⟨from_start, to_stop⟩, rfl⟩

theorem at?_eq_none_iff (spaced : layer.Spaced) {a : Word} :
    layer.at? a = none ↔
      ∀ start s, layer.get? start = some s → ¬ (start ≤ a ∧ a < s.stop) := by
  rw [Option.eq_none_iff_forall_ne_some]
  constructor
  · intro none start s held covers
    have filed := spaced.filed held
    subst filed
    exact none s ((at?_eq_some_iff spaced).2 ⟨held, covers⟩)
  · intro none s found
    obtain ⟨held, covers⟩ := (at?_eq_some_iff spaced).1 found
    exact none _ _ held covers

/-- The last segment that begins below the end of another answers for all that might overlap it. -/
theorem rival_apart (spaced : layer.Spaced) {s : Segment} (ordered : s.start ≤ s.stop)
    (new : layer.get? s.start = none)
    (clear : ∀ rival, layer.rival? s = some rival → rival.range.overlaps s.range = false)
    {start : Word} {t : Segment} (held : layer.get? start = some t) :
    (start < s.start → t.stop ≤ s.start) ∧ (s.start < start → s.stop ≤ start) := by
  have top : Word.top = 0xffffffffffffffff := rfl
  have capped := Word.addCapped_eq s.start 1
  unfold rival? at clear
  generalize bound_eq : max s.stop (Word.addCapped s.start 1) = bound at *
  rw [Word.max_eq] at bound_eq
  have reaches : s.start ≤ bound ∧ s.stop ≤ bound := by grind
  -- What begins below the bound but behind the start begins inside, so the segment is not empty.
  have rival_inside {other : Word} (below : other < bound) (past : s.start < other) :
      other < s.stop := by
    grind
  cases found : layer.below? bound with
  | none =>
    have := (Table.below?_eq_none_iff layer bound).1 found start t held
    grind
  | some entry =>
    obtain ⟨last, rival⟩ := entry
    obtain ⟨rival_held, below, greatest⟩ :=
      (Table.below?_eq_some_iff layer last bound rival).1 found
    have filed := spaced.filed rival_held
    have rival_ordered := spaced.ordered rival_held
    have disjoint : ¬ (last < s.stop ∧ s.start < rival.stop) := by
      simpa [AddressRange.overlaps, found, ← filed, Segment.start, Segment.stop] using
        clear rival (by simp [found])
    have other : last ≠ s.start := by
      rintro rfl
      simp [new] at rival_held
    have earlier := @Spaced.apart _ spaced _ _ _ _ held rival_held
    have := greatest start t held
    constructor
    · intro before
      rcases Std.le_iff_lt_or_eq.1 (this (by grind)) with ahead | rfl
      · grind
      · rw [held] at rival_held
        grind
    · intro after
      grind

theorem erase_spaced (spaced : layer.Spaced) (start : Word) : Spaced (layer.erase start) where
  filed held := spaced.filed (Table.get?_erase_eq_some_iff.1 held).2
  ordered held := spaced.ordered (Table.get?_erase_eq_some_iff.1 held).2
  apart held held' before := spaced.apart (Table.get?_erase_eq_some_iff.1 held).2
    (Table.get?_erase_eq_some_iff.1 held').2 before

theorem erase_sound (sound : layer.Sound) (start : Word) : Sound (layer.erase start) :=
  (erase_spaced sound.spaced start).sound fun held =>
    sound.wellFormed (Table.get?_erase_eq_some_iff.1 held).2

theorem insert_spaced (spaced : layer.Spaced) {s : Segment} (ordered : s.start ≤ s.stop)
    (new : layer.get? s.start = none)
    (clear : ∀ rival, layer.rival? s = some rival → rival.range.overlaps s.range = false) :
    Spaced (layer.insert s.start s) := by
  constructor
  · intro start t held
    rcases Table.get?_insert_eq_some_iff.1 held with ⟨rfl, rfl⟩ | ⟨-, held⟩
    · rfl
    · exact spaced.filed held
  · intro start t held
    rcases Table.get?_insert_eq_some_iff.1 held with ⟨-, rfl⟩ | ⟨-, held⟩
    · exact ordered
    · exact spaced.ordered held
  · intro start t start' t' first second before
    rcases Table.get?_insert_eq_some_iff.1 first with ⟨rfl, rfl⟩ | ⟨-, held⟩ <;>
      rcases Table.get?_insert_eq_some_iff.1 second with ⟨rfl, rfl⟩ | ⟨-, held'⟩
    · exact absurd before Std.lt_irrefl
    · exact (rival_apart spaced ordered new clear held').2 before
    · exact (rival_apart spaced ordered new clear held).1 before
    · exact spaced.apart held held' before

theorem insert_sound (sound : layer.Sound) {s : Segment} (wellFormed : s.WellFormed)
    (new : layer.get? s.start = none)
    (clear : ∀ rival, layer.rival? s = some rival → rival.range.overlaps s.range = false) :
    Sound (layer.insert s.start s) := by
  refine (insert_spaced sound.spaced wellFormed.ordered new clear).sound fun held => ?_
  rcases Table.get?_insert_eq_some_iff.1 held with ⟨-, rfl⟩ | ⟨-, held⟩
  · exact wellFormed
  · exact sound.wellFormed held

theorem not_isEmpty_iff {s : Segment} (ordered : s.start ≤ s.stop) :
    (!s.range.isEmpty) = true ↔ s.start < s.stop := by
  simp only [AddressRange.isEmpty, Bool.not_eq_true', beq_eq_false_iff_ne]
  exact ⟨fun other => Std.lt_of_le_of_ne ordered other, fun before => Std.ne_of_lt before⟩

theorem nextStart?_eq_some (spaced : layer.Spaced) {a next : Word}
    (found : layer.nextStart? a = some next) :
    (∃ s, layer.get? next = some s ∧ a ≤ next ∧ next < s.stop) ∧
      ∀ start s, layer.get? start = some s → a ≤ start → start < s.stop → next ≤ start := by
  unfold nextStart? at found
  obtain ⟨⟨key, s⟩, entry, rfl⟩ := Option.map_eq_some_iff.1 found
  obtain ⟨held, wanted, nearest⟩ := Table.find?_entries_eq_some entry
  have filed := spaced.filed held
  simp only [Bool.and_eq_true, decide_eq_true_eq] at wanted nearest
  have nonempty := (not_isEmpty_iff (spaced.ordered held)).1 wanted.2
  subst filed
  refine ⟨⟨s, held, wanted.1, nonempty⟩, fun start t other reached before => ?_⟩
  have other_filed := spaced.filed other
  subst other_filed
  exact nearest _ t other ⟨reached, (not_isEmpty_iff (spaced.ordered other)).2 before⟩

theorem nextStart?_eq_none (spaced : layer.Spaced) {a : Word} (found : layer.nextStart? a = none) :
    ∀ start s, layer.get? start = some s → a ≤ start → ¬ start < s.stop := by
  intro start s held reached before
  have filed := spaced.filed held
  subst filed
  have wanted := (not_isEmpty_iff (spaced.ordered held)).2 before
  have := List.find?_eq_none.1 (Option.map_eq_none_iff.1 found) _ (Table.get?_eq_some_iff.1 held)
  simp [reached, wanted] at this

end SegmentLayer

namespace SegmentMap

structure Spaced (m : SegmentMap) : Prop where
  auto : m.autoSegments.Spaced
  user : m.userSegments.Spaced

structure Sound (m : SegmentMap) : Prop where
  auto : m.autoSegments.Sound
  user : m.userSegments.Sound

theorem Sound.spaced {m : SegmentMap} (sound : m.Sound) : m.Spaced :=
  ⟨sound.auto.spaced, sound.user.spaced⟩

theorem Spaced.layer {m : SegmentMap} (spaced : m.Spaced) (auto : Bool) :
    (m.layer auto).Spaced := by
  cases auto with
  | true => exact spaced.auto
  | false => exact spaced.user

theorem Sound.layer {m : SegmentMap} (sound : m.Sound) (auto : Bool) : (m.layer auto).Sound := by
  cases auto with
  | true => exact sound.auto
  | false => exact sound.user

theorem put_sound {m : SegmentMap} (sound : m.Sound) {s : Segment} (wellFormed : s.WellFormed)
    (new : (m.layer s.auto).get? s.start = none)
    (apart : ∀ rival, (m.layer s.auto).rival? s = some rival →
      rival.range.overlaps s.range = false) : (m.put s).Sound := by
  have inserted := SegmentLayer.insert_sound (sound.layer s.auto) wellFormed new apart
  unfold put withLayer
  split
  · exact ⟨inserted, sound.user⟩
  · exact ⟨sound.auto, inserted⟩

theorem add_eq_ok {m after : SegmentMap} {s : Segment} {id : Nat}
    (added : m.add s = .ok (after, id)) :
    (m.layer s.auto).get? s.start = none ∧
      (∀ rival, (m.layer s.auto).rival? s = some rival → rival.range.overlaps s.range = false) ∧
      after = { m with lastId := id }.put { s with id := id } := by
  simp only [add] at added
  split_ifs at added with refused
  cases added
  simp only [Bool.or_eq_true, not_or, Bool.not_eq_true] at refused
  obtain ⟨absent, clear⟩ := refused
  refine ⟨by simpa [Table.contains] using absent, fun rival found => ?_, rfl⟩
  simpa [found] using clear

theorem add_sound {m after : SegmentMap} {s : Segment} {id : Nat} (sound : m.Sound)
    (wellFormed : s.WellFormed) (added : m.add s = .ok (after, id)) : after.Sound := by
  obtain ⟨new, apart, rfl⟩ := add_eq_ok added
  apply put_sound
  · exact ⟨sound.auto, sound.user⟩
  · exact ⟨wellFormed.stored, wellFormed.within⟩
  · exact new
  · exact apart

theorem remove_sound {m : SegmentMap} (sound : m.Sound) (start : Word) (auto : Bool) :
    (m.remove start auto).1.Sound := by
  have erased := SegmentLayer.erase_sound (sound.layer auto) start
  cases auto with
  | true => exact ⟨erased, sound.user⟩
  | false => exact ⟨sound.auto, erased⟩

/-- The maps that can be made by adding and removing segments in both layers and any order. What
sections they have does not matter. -/
inductive Built : SegmentMap → Prop where
  | empty : Built .empty
  | add {m after : SegmentMap} {start length dataOffset dataLength : Word} {flags : SegmentFlags}
      {auto : Bool} {s : Segment} {id : Nat} (built : Built m)
      (made : Segment.ofLayout start length dataOffset dataLength flags auto = .ok s)
      (added : m.add s = .ok (after, id)) : Built after
  | remove {m : SegmentMap} (built : Built m) (start : Word) (auto : Bool) :
      Built (m.remove start auto).1
  | withSections {m : SegmentMap} (built : Built m) (auto user : Table String Section) :
      Built { m with autoSections := auto, userSections := user }

theorem built_sound {m : SegmentMap} (built : Built m) : m.Sound := by
  induction built with
  | empty => exact ⟨SegmentLayer.sound_empty, SegmentLayer.sound_empty⟩
  | add _ made added ih => exact add_sound ih (Segment.ofLayout_wellFormed made) added
  | remove _ start auto ih => exact remove_sound ih start auto
  | withSections _ auto user ih => exact ⟨ih.auto, ih.user⟩

variable {m : SegmentMap}

theorem at?_eq_some_iff {a : Word} {s : Segment} :
    m.at? a = some s ↔ m.userSegments.at? a = some s ∨
      m.userSegments.at? a = none ∧ m.autoSegments.at? a = some s := by
  unfold at?
  cases m.userSegments.at? a <;> simp

theorem span?_eq_none_iff (m : SegmentMap) (a : Word) : m.span? a = none ↔ m.at? a = none := by
  unfold span? at?
  cases m.userSegments.at? a with
  | some s => simp
  | none =>
    cases m.autoSegments.at? a with
    | none => simp
    | some s => cases m.userSegments.nextStart? a <;> simp

/-- Up to the next start no user segment is in effect where none is at first. -/
theorem user_hides_from_next (spaced : m.Spaced) {a b : Word}
    (none : m.userSegments.at? a = none) (reached : a ≤ b)
    (before : ∀ next, m.userSegments.nextStart? a = some next → b < next) :
    m.userSegments.at? b = .none := by
  have clear := (SegmentLayer.at?_eq_none_iff spaced.user).1 none
  rw [SegmentLayer.at?_eq_none_iff spaced.user]
  rintro start s held ⟨from_start, to_stop⟩
  by_cases ahead : a ≤ start
  · cases found : m.userSegments.nextStart? a with
    | none =>
      exact SegmentLayer.nextStart?_eq_none spaced.user found start s held ahead
        (Std.lt_of_le_of_lt from_start to_stop)
    | some next =>
      have nearest := (SegmentLayer.nextStart?_eq_some spaced.user found).2 start s held ahead
        (Std.lt_of_le_of_lt from_start to_stop)
      have := before next found
      grind
  · exact clear start s held ⟨by grind, Std.lt_of_le_of_lt reached to_stop⟩

theorem span?_governs (spaced : m.Spaced) {a stop : Word} {s : Segment}
    (found : m.span? a = some (s, stop)) :
    s.start ≤ a ∧ a < stop ∧ stop ≤ s.stop ∧ ∀ b, a ≤ b → b < stop → m.at? b = some s := by
  unfold span? at found
  cases user : m.userSegments.at? a with
  | some t =>
    simp only [user, Option.some.injEq, Prod.mk.injEq] at found
    obtain ⟨rfl, rfl⟩ := found
    obtain ⟨held, from_start, to_stop⟩ := (SegmentLayer.at?_eq_some_iff spaced.user).1 user
    refine ⟨from_start, to_stop, Std.le_refl _, fun b reached before => ?_⟩
    exact at?_eq_some_iff.2 (.inl ((SegmentLayer.at?_eq_some_iff spaced.user).2
      ⟨held, Std.le_trans from_start reached, before⟩))
  | none =>
    cases auto : m.autoSegments.at? a with
    | none => simp [user, auto] at found
    | some t =>
      obtain ⟨held, from_start, to_stop⟩ := (SegmentLayer.at?_eq_some_iff spaced.auto).1 auto
      have governs {b : Word} (reached : a ≤ b) (inside : b < t.stop)
          (before : ∀ next, m.userSegments.nextStart? a = some next → b < next) :
          m.at? b = some t :=
        at?_eq_some_iff.2 (.inr ⟨user_hides_from_next spaced user reached before,
          (SegmentLayer.at?_eq_some_iff spaced.auto).2
            ⟨held, Std.le_trans from_start reached, inside⟩⟩)
      cases next : m.userSegments.nextStart? a with
      | none =>
        simp only [user, auto, next, Option.some.injEq, Prod.mk.injEq] at found
        obtain ⟨rfl, rfl⟩ := found
        refine ⟨from_start, to_stop, Std.le_refl _, ?_⟩
        exact fun b reached before => governs reached before (by simp [next])
      | some start =>
        simp only [user, auto, next, Option.some.injEq, Prod.mk.injEq] at found
        obtain ⟨rfl, rfl⟩ := found
        obtain ⟨⟨cover, cover_held, ahead, nonempty⟩, -⟩ :=
          SegmentLayer.nextStart?_eq_some spaced.user next
        -- A user segment that began at `a` would be in effect there.
        have further : a < start := by
          have := (SegmentLayer.at?_eq_none_iff spaced.user).1 user start cover cover_held
          grind
        rw [Word.min_eq]
        refine ⟨from_start, by grind, by grind, ?_⟩
        intro b reached before
        exact governs reached (by grind) (by simp only [next]; grind)

theorem span?_eq_some (sound : m.Sound) {a stop : Word} {s : Segment}
    (found : m.span? a = some (s, stop)) :
    s.WellFormed ∧ s.start ≤ a ∧ a < stop ∧ stop ≤ s.stop ∧
      ∀ b, a ≤ b → b < stop → m.at? b = some s := by
  obtain ⟨from_start, before, within, governs⟩ := span?_governs sound.spaced found
  refine ⟨?_, from_start, before, within, governs⟩
  rcases at?_eq_some_iff.1 (governs a (Std.le_refl a) before) with user | ⟨-, auto⟩
  · exact sound.user.wellFormed ((SegmentLayer.at?_eq_some_iff sound.user.spaced).1 user).1
  · exact sound.auto.wellFormed ((SegmentLayer.at?_eq_some_iff sound.auto.spaced).1 auto).1

end SegmentMap

end BinaryAtlas
