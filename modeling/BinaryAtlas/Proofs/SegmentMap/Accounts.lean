import BinaryAtlas.Proofs.SegmentMap.Layers
import Mathlib.Data.List.Nodup

/-!
Segments get a number when they are added, and keep it: taken out and put back, or given
relocations, a segment is still the one that the number was issued to.
-/

set_option autoImplicit false

namespace BinaryAtlas

namespace Segment

/-- A segment as it was before it got relocations. -/
def bare (s : Segment) : Segment := { s with relocations := [] }

theorem ofLayout_eq_ok {start length dataOffset dataLength : Word} {flags : SegmentFlags}
    {auto : Bool} {s : Segment}
    (made : ofLayout start length dataOffset dataLength flags auto = .ok s) :
    s.WellFormed ∧ s.auto = auto ∧ s.relocations = [] := by
  refine ⟨ofLayout_wellFormed made, ?_⟩
  unfold ofLayout at made
  split at made
  · cases made
  · split at made <;> cases made
    exact ⟨rfl, rfl⟩

end Segment

namespace SegmentLayer

variable {layer : SegmentLayer}

theorem rival?_held {s rival : Segment} (found : layer.rival? s = some rival) :
    ∃ start, layer.get? start = some rival := by
  obtain ⟨⟨start, last⟩, entry, rfl⟩ := Option.map_eq_some_iff.1 found
  exact ⟨start, ((Table.below?_eq_some_iff layer start _ last).1 entry).1⟩

theorem mem_of_at? {a : Word} {s : Segment} (found : layer.at? a = some s) :
    s ∈ layer.values ∧ s.start ≤ a ∧ a < s.stop := by
  unfold at? at found
  cases last : layer.atOrBelow? a with
  | none => simp [last] at found
  | some entry =>
    obtain ⟨start, t⟩ := entry
    obtain ⟨held, -, -⟩ := (Table.atOrBelow?_eq_some_iff layer start a t).1 last
    simp only [last, Option.ite_none_right_eq_some, Option.some.injEq] at found
    obtain ⟨covers, rfl⟩ := found
    exact ⟨(Table.mem_values_iff layer t).2 ⟨start, held⟩, Segment.contains_iff.1 covers⟩

theorem disjoint (sound : layer.Sound) {start start' : Word} {s s' : Segment}
    (held : layer.get? start = some s) (held' : layer.get? start' = some s')
    (other : start ≠ start') : s.range.overlaps s'.range = false := by
  have filed := sound.filed held
  have filed' := sound.filed held'
  have clear : ¬ (start < s'.stop ∧ start' < s.stop) := by
    rintro ⟨before, before'⟩
    have first := @Sound.apart _ sound _ _ _ _ held held'
    have second := @Sound.apart _ sound _ _ _ _ held' held
    grind
  simpa [AddressRange.overlaps, ← filed, ← filed', Segment.start, Segment.stop] using clear

theorem at?_eq_some_iff_values (sound : layer.Sound) {a : Word} {s : Segment} :
    layer.at? a = some s ↔ s ∈ layer.values ∧ s.contains a = true := by
  rw [at?_eq_some_iff sound.spaced, Table.mem_values_iff, Segment.contains_iff]
  constructor
  · exact fun ⟨held, covers⟩ => ⟨⟨_, held⟩, covers⟩
  · rintro ⟨⟨start, held⟩, covers⟩
    rw [sound.filed held]
    exact ⟨held, by rwa [sound.filed held] at covers⟩

theorem at?_eq_none_iff_values (sound : layer.Sound) {a : Word} :
    layer.at? a = none ↔ ∀ s ∈ layer.values, s.contains a = false := by
  rw [Option.eq_none_iff_forall_ne_some]
  constructor
  · intro absent s member
    by_contra covers
    exact absent s ((at?_eq_some_iff_values sound).2 ⟨member, by simpa using covers⟩)
  · intro clear s found
    obtain ⟨member, covers⟩ := (at?_eq_some_iff_values sound).1 found
    simp [clear s member] at covers

theorem values_disjoint (sound : layer.Sound) :
    layer.values.Pairwise fun s t => s.range.overlaps t.range = false := by
  rw [Table.values, List.pairwise_map]
  refine layer.ascending.imp_of_mem fun {first later} member member' before => ?_
  refine disjoint sound (Table.get?_eq_some_iff.2 member) (Table.get?_eq_some_iff.2 member') ?_
  intro same
  rw [same] at before
  simp at before

/-- A segment in place of one with the same bounds. -/
theorem replace_sound (sound : layer.Sound) {s t : Segment} (held : layer.get? s.start = some s)
    (range : t.range = s.range) (wellFormed : t.WellFormed) : Sound (layer.insert t.start t) := by
  have start : t.start = s.start := congrArg AddressRange.start range
  have stop : t.stop = s.stop := congrArg AddressRange.stop range
  constructor
  · intro key u found
    rcases Table.get?_insert_eq_some_iff.1 found with ⟨rfl, rfl⟩ | ⟨-, found⟩
    · rfl
    · exact sound.filed found
  · intro key u found
    rcases Table.get?_insert_eq_some_iff.1 found with ⟨-, rfl⟩ | ⟨-, found⟩
    · exact wellFormed
    · exact sound.wellFormed found
  · intro key u key' u' first second before
    rcases Table.get?_insert_eq_some_iff.1 first with ⟨rfl, rfl⟩ | ⟨-, first⟩
    · rcases Table.get?_insert_eq_some_iff.1 second with ⟨same, -⟩ | ⟨-, second⟩
      · exact absurd before (by simp [same])
      · rw [stop]
        rw [start] at before
        exact sound.apart held second before
    · rcases Table.get?_insert_eq_some_iff.1 second with ⟨rfl, -⟩ | ⟨-, second⟩
      · rw [start] at before ⊢
        exact sound.apart first held before
      · exact sound.apart first second before

end SegmentLayer

namespace SegmentMap

theorem layer_withLayer (m : SegmentMap) (auto side : Bool) (layer : SegmentLayer) :
    (m.withLayer auto layer).layer side = if side = auto then layer else m.layer side := by
  cases auto <;> cases side <;> rfl

theorem layer_put (m : SegmentMap) (s : Segment) (side : Bool) :
    (m.put s).layer side =
      if side = s.auto then (m.layer s.auto).insert s.start s else m.layer side :=
  layer_withLayer m s.auto side _

theorem lastId_withLayer (m : SegmentMap) (auto : Bool) (layer : SegmentLayer) :
    (m.withLayer auto layer).lastId = m.lastId := by
  cases auto <;> rfl

theorem get?_put {m : SegmentMap} {s t : Segment} {side : Bool} {start : Word}
    (found : ((m.put s).layer side).get? start = some t) :
    side = s.auto ∧ start = s.start ∧ t = s ∨ (m.layer side).get? start = some t := by
  rw [layer_put] at found
  split at found
  · rename_i same
    rcases Table.get?_insert_eq_some_iff.1 found with ⟨here, now⟩ | ⟨-, before⟩
    · exact .inl ⟨same, here, now⟩
    · exact .inr (by rwa [same])
  · exact .inr found

theorem get?_remove {m : SegmentMap} {t : Segment} {auto side : Bool} {start start' : Word}
    (found : ((m.remove start auto).1.layer side).get? start' = some t) :
    (m.layer side).get? start' = some t := by
  rw [remove, layer_withLayer] at found
  split at found
  · rename_i same
    rw [same]
    exact (Table.get?_erase_eq_some_iff.1 found).2
  · exact found

theorem mem_allSegments_iff {m : SegmentMap} {s : Segment} :
    s ∈ m.allSegments ↔ ∃ side start, (m.layer side).get? start = some s := by
  simp [allSegments, Table.values, layer, Table.get?_eq_some_iff]

theorem mem_of_at? {m : SegmentMap} {a : Word} {s : Segment} (found : m.at? a = some s) :
    s ∈ m.allSegments ∧ s.start ≤ a ∧ a < s.stop := by
  rw [allSegments, List.mem_append]
  rcases at?_eq_some_iff.1 found with user | ⟨-, auto⟩
  · obtain ⟨member, covers⟩ := SegmentLayer.mem_of_at? user
    exact ⟨.inl member, covers⟩
  · obtain ⟨member, covers⟩ := SegmentLayer.mem_of_at? auto
    exact ⟨.inr member, covers⟩

/-- Every segment that is there was issued its number, and no number was issued twice. -/
structure Accounted (issued : List Segment) (m : SegmentMap) : Prop where
  sound : m.Sound
  sided : ∀ {side start s}, (m.layer side).get? start = some s → s.auto = side
  known : ∀ {side start s}, (m.layer side).get? start = some s → s.bare ∈ issued
  distinct : (issued.map (·.id)).Nodup
  bounded : ∀ s ∈ issued, s.id ≤ m.lastId

variable {issued : List Segment} {m after : SegmentMap} {s : Segment}

theorem empty_accounted : Accounted [] .empty where
  sound := ⟨SegmentLayer.sound_empty, SegmentLayer.sound_empty⟩
  sided {side start s} held := by cases side <;> simp [empty, layer] at held
  known {side start s} held := by cases side <;> simp [empty, layer] at held
  distinct := .nil
  bounded := by simp

/-- Two segments of one number are one segment. -/
theorem Accounted.same_id (accounted : m.Accounted issued) {side side' : Bool}
    {start start' : Word} {t : Segment} (held : (m.layer side).get? start = some s)
    (held' : (m.layer side').get? start' = some t) (same : s.id = t.id) :
    side = side' ∧ start = start' := by
  have bare : s.bare = t.bare :=
    List.inj_on_of_nodup_map accounted.distinct (accounted.known held) (accounted.known held')
      same
  constructor
  · rw [← accounted.sided held, ← accounted.sided held']
    exact congrArg (·.auto) bare
  · rw [← (accounted.sound.layer side).filed held, ← (accounted.sound.layer side').filed held']
    exact congrArg (·.start) bare

theorem Accounted.ids_nodup (accounted : m.Accounted issued) :
    (m.allSegments.map (·.id)).Nodup := by
  have layer_nodup (side : Bool) : ((m.layer side).values.map (·.id)).Nodup :=
    Table.values_map_nodup fun held held' same => (accounted.same_id held held' same).2
  rw [allSegments, List.map_append, List.nodup_append]
  refine ⟨layer_nodup false, layer_nodup true, fun id user id' auto same => ?_⟩
  obtain ⟨s, user_member, rfl⟩ := List.mem_map.1 user
  obtain ⟨t, auto_member, rfl⟩ := List.mem_map.1 auto
  obtain ⟨start, held⟩ := (Table.mem_values_iff (m.layer false) s).1 user_member
  obtain ⟨start', held'⟩ := (Table.mem_values_iff (m.layer true) t).1 auto_member
  cases (accounted.same_id held held' same).1

theorem Accounted.renumbered (accounted : m.Accounted issued) {id : Nat} (later : m.lastId ≤ id) :
    Accounted issued { m with lastId := id } where
  sound := ⟨accounted.sound.auto, accounted.sound.user⟩
  sided held := accounted.sided held
  known held := accounted.known held
  distinct := accounted.distinct
  bounded t member := Nat.le_trans (accounted.bounded t member) later

theorem Accounted.issued_next (accounted : m.Accounted issued) (next : s.id = m.lastId + 1) :
    Accounted (s :: issued) { m with lastId := s.id } where
  sound := ⟨accounted.sound.auto, accounted.sound.user⟩
  sided held := accounted.sided held
  known held := List.mem_cons_of_mem s (accounted.known held)
  distinct := by
    rw [List.map_cons, List.nodup_cons]
    refine ⟨fun again => ?_, accounted.distinct⟩
    obtain ⟨t, member, same⟩ := List.mem_map.1 again
    have := accounted.bounded t member
    omega
  bounded t member := by
    rcases List.mem_cons.1 member with rfl | earlier
    · exact Nat.le_refl _
    · have := accounted.bounded t earlier
      show t.id ≤ s.id
      omega

theorem put_accounted (accounted : m.Accounted issued) (sound : (m.put s).Sound)
    (known : s.bare ∈ issued) : (m.put s).Accounted issued where
  sound := sound
  sided {side start t} held := by
    rcases get?_put held with ⟨rfl, -, rfl⟩ | held
    · rfl
    · exact accounted.sided held
  known {side start t} held := by
    rcases get?_put held with ⟨-, -, rfl⟩ | held
    · exact known
    · exact accounted.known held
  distinct := accounted.distinct
  bounded t member := by
    rw [put, lastId_withLayer]
    exact accounted.bounded t member

theorem remove_accounted (accounted : m.Accounted issued) (start : Word) (auto : Bool) :
    (m.remove start auto).1.Accounted issued where
  sound := remove_sound accounted.sound start auto
  sided held := accounted.sided (get?_remove held)
  known held := accounted.known (get?_remove held)
  distinct := accounted.distinct
  bounded t member := by
    rw [remove, lastId_withLayer]
    exact accounted.bounded t member

/-- Whether a segment of the same layer is in the way of a new one. -/
def Occupied (m : SegmentMap) (s : Segment) : Prop :=
  ∃ t ∈ (m.layer s.auto).values, t.range.overlaps s.range = true ∨ t.start = s.start

theorem get?_of_free (free : ¬ m.Occupied s) (sound : m.Sound) :
    (m.layer s.auto).get? s.start = none := by
  rw [Option.eq_none_iff_forall_ne_some]
  intro t held
  exact free ⟨t, (Table.mem_values_iff _ t).2 ⟨_, held⟩, .inr ((sound.layer s.auto).filed held)⟩

theorem occupied_iff_rival (sound : m.Sound) (wellFormed : s.WellFormed) :
    m.Occupied s ↔ (m.layer s.auto).contains s.start = true ∨
      ∃ rival, (m.layer s.auto).rival? s = some rival ∧ rival.range.overlaps s.range = true := by
  have layer_sound := sound.layer s.auto
  constructor
  · rintro ⟨t, member, clash⟩
    obtain ⟨start, held⟩ := (Table.mem_values_iff _ t).1 member
    have filed := layer_sound.filed held
    by_contra clear
    simp only [not_or, not_exists, not_and, Bool.not_eq_true] at clear
    have new : (m.layer s.auto).get? s.start = none := by
      simpa [Table.contains] using clear.1
    have apart := SegmentLayer.rival_apart layer_sound.spaced wellFormed.ordered new clear.2 held
    have elsewhere : start ≠ s.start := by
      rintro rfl
      simp [new] at held
    rcases clash with overlaps | same
    · have crossing : t.start < s.stop ∧ s.start < t.stop := by
        simpa [AddressRange.overlaps, Segment.start, Segment.stop] using overlaps
      grind
    · exact elsewhere (filed.symm.trans same)
  · rintro (present | ⟨rival, found, overlaps⟩)
    · obtain ⟨t, held⟩ := Option.isSome_iff_exists.1 present
      exact ⟨t, (Table.mem_values_iff _ t).2 ⟨_, held⟩, .inr (layer_sound.filed held)⟩
    · exact ⟨rival, (Table.mem_values_iff _ rival).2 (SegmentLayer.rival?_held found),
        .inl overlaps⟩

theorem add_of_occupied (sound : m.Sound) (wellFormed : s.WellFormed) (occupied : m.Occupied s) :
    m.add s = .error (.segmentOverlap s.start s.stop) := by
  rcases (occupied_iff_rival sound wellFormed).1 occupied with present | ⟨rival, found, overlaps⟩
  · simp [add, overlapError, present]
  · simp [add, overlapError, found, overlaps]

theorem add_of_free (sound : m.Sound) (wellFormed : s.WellFormed) (free : ¬ m.Occupied s) :
    m.add s = .ok ({ m with lastId := m.lastId + 1 }.put { s with id := m.lastId + 1 },
      m.lastId + 1) := by
  have clear := mt (occupied_iff_rival sound wellFormed).2 free
  simp only [not_or, not_exists, not_and, Bool.not_eq_true] at clear
  cases found : (m.layer s.auto).rival? s with
  | none => simp [add, found, clear.1]
  | some rival => simp [add, found, clear.1, clear.2 rival found]

theorem add_accounted (accounted : m.Accounted issued) (wellFormed : s.WellFormed)
    (bare : s.relocations = []) {id : Nat} (added : m.add s = .ok (after, id)) :
    after.Accounted ({ s with id := id } :: issued) ∧
      (after.layer s.auto).get? s.start = some { s with id := id } := by
  have sound := add_sound accounted.sound wellFormed added
  have free : ¬ m.Occupied s := by
    intro occupied
    rw [add_of_occupied accounted.sound wellFormed occupied] at added
    cases added
  rw [add_of_free accounted.sound wellFormed free] at added
  cases added
  constructor
  · refine put_accounted (accounted.issued_next rfl) sound ?_
    simp [Segment.bare, bare]
  · rw [layer_put, if_pos rfl]
    exact Table.get?_insert_self _ _ _

theorem restore_accounted (accounted : m.Accounted issued) (wellFormed : s.WellFormed)
    (known : s.bare ∈ issued) (new : (m.layer s.auto).get? s.start = none)
    (restored : m.restore s = .ok after) : after.Accounted issued := by
  simp only [restore] at restored
  split_ifs at restored with refused
  cases restored
  have renumbered := accounted.renumbered (Nat.le_max_left m.lastId s.id)
  refine put_accounted renumbered (put_sound renumbered.sound wellFormed new ?_) known
  intro rival found
  have found : (m.layer s.auto).rival? s = some rival := found
  simp only [found, Bool.or_eq_true, not_or, Bool.not_eq_true] at refused
  exact refused.1

theorem Accounted.held_of_at? (accounted : m.Accounted issued) {a : Word}
    (found : m.at? a = some s) : (m.layer s.auto).get? s.start = some s := by
  have held_in {side : Bool} (held : (m.layer side).get? s.start = some s) :
      (m.layer s.auto).get? s.start = some s := by
    rwa [accounted.sided held]
  rcases at?_eq_some_iff.1 found with user | ⟨-, auto⟩
  · have held := (SegmentLayer.at?_eq_some_iff accounted.sound.user.spaced).1 user
    exact held_in (show (m.layer false).get? s.start = some s from held.1)
  · have held := (SegmentLayer.at?_eq_some_iff accounted.sound.auto.spaced).1 auto
    exact held_in (show (m.layer true).get? s.start = some s from held.1)

theorem put_relocated_sound (sound : m.Sound) (held : (m.layer s.auto).get? s.start = some s)
    (relocations : List AddressRange) :
    (m.put { s with relocations := relocations }).Sound := by
  have wellFormed := (sound.layer s.auto).wellFormed held
  have replaced := SegmentLayer.replace_sound (sound.layer s.auto)
    (t := { s with relocations := relocations }) held rfl
    ⟨wellFormed.stored, wellFormed.within⟩
  unfold put withLayer
  split
  · exact ⟨replaced, sound.user⟩
  · exact ⟨sound.auto, replaced⟩

theorem addRelocation_accounted (accounted : m.Accounted issued) (range : AddressRange) :
    (m.addRelocation range).1.Accounted issued := by
  unfold addRelocation
  cases found : m.at? range.start with
  | none => exact accounted
  | some s =>
    have held := accounted.held_of_at? found
    simp only
    split
    · exact accounted
    · have known : s.bare ∈ issued := accounted.known held
      exact put_accounted accounted (put_relocated_sound accounted.sound held _) known

theorem Accounted.byId?_eq (accounted : m.Accounted issued) {side : Bool} {start : Word}
    (held : (m.layer side).get? start = some s) : m.byId? s.id = some s := by
  cases found : m.byId? s.id with
  | none =>
    have absent := List.find?_eq_none.1 found s (mem_allSegments_iff.2 ⟨side, start, held⟩)
    simp at absent
  | some t =>
    obtain ⟨side', start', held'⟩ := mem_allSegments_iff.1 (List.mem_of_find?_eq_some found)
    have same : t.id = s.id := by simpa using List.find?_some found
    obtain ⟨rfl, rfl⟩ := accounted.same_id held' held same
    rw [held] at held'
    exact held'.symm

end SegmentMap

end BinaryAtlas
