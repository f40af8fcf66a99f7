import BinaryAtlas.Proofs.SegmentMap.Accounts

/-!
Putting what users mapped and named back into a former state. Where the former state keeps its
segments apart, there is room for what comes back.
-/

set_option autoImplicit false

namespace BinaryAtlas

namespace SegmentMap

/-- A map with a user segment put back into a former state, as far as there is room for it. -/
def reset (m : SegmentMap) (start : Word) (state : Option Segment) : SegmentMap :=
  let cleared := (m.remove start false).1
  match state with
  | none => cleared
  | some s =>
    match cleared.restore s with
    | .ok restored => restored
    | .error _ => cleared

def resetSection (m : SegmentMap) (name : String) (state : Option Section) : SegmentMap :=
  let cleared := (m.removeSection name false).1
  match state with
  | none => cleared
  | some s => (cleared.addSection s).1

def withUserSegment (m : SegmentMap) (start : Word) (state : Option Segment) : SegmentMap :=
  { m with userSegments := m.userSegments.alter start fun _ => state }

def withUserSection (m : SegmentMap) (name : String) (state : Option Section) : SegmentMap :=
  { m with userSections := m.userSections.alter name fun _ => state }

/-- No segment has a number that is still to be issued. -/
def Numbered (m : SegmentMap) : Prop := ∀ s ∈ m.allSegments, s.id ≤ m.lastId

variable {m : SegmentMap}

theorem remove_numbered (numbered : m.Numbered) (start : Word) (auto : Bool) :
    (m.remove start auto).1.Numbered := by
  intro s member
  obtain ⟨side, key, held⟩ := mem_allSegments_iff.1 member
  rw [remove, lastId_withLayer]
  exact numbered s (mem_allSegments_iff.2 ⟨side, key, get?_remove held⟩)

theorem put_numbered (numbered : m.Numbered) {id : Nat} (later : m.lastId ≤ id) {s : Segment}
    (issued : s.id ≤ id) : ({ m with lastId := id }.put s).Numbered := by
  intro t member
  obtain ⟨side, key, held⟩ := mem_allSegments_iff.1 member
  rw [put, lastId_withLayer]
  rcases get?_put held with ⟨-, -, rfl⟩ | held
  · exact issued
  · exact Nat.le_trans (numbered t (mem_allSegments_iff.2 ⟨side, key, held⟩)) later

theorem byId?_put_next (numbered : m.Numbered) (s : Segment) :
    ({ m with lastId := m.lastId + 1 }.put { s with id := m.lastId + 1 }).byId? (m.lastId + 1) =
      some { s with id := m.lastId + 1 } := by
  generalize after_eq : { m with lastId := m.lastId + 1 }.put { s with id := m.lastId + 1 } = after
  have member : { s with id := m.lastId + 1 } ∈ after.allSegments := by
    rw [mem_allSegments_iff, ← after_eq]
    refine ⟨s.auto, s.start, ?_⟩
    rw [layer_put, if_pos rfl]
    exact Table.get?_insert_self _ _ _
  cases found : after.byId? (m.lastId + 1) with
  | none =>
    have absent := List.find?_eq_none.1 found _ member
    simp at absent
  | some t =>
    obtain ⟨side, key, held⟩ := mem_allSegments_iff.1 (List.mem_of_find?_eq_some found)
    have same : t.id = m.lastId + 1 := by simpa using List.find?_some found
    rw [← after_eq] at held
    rcases get?_put held with ⟨-, -, rfl⟩ | older
    · rfl
    · have := numbered t (mem_allSegments_iff.2 ⟨side, key, older⟩)
      omega

theorem reset_numbered (numbered : m.Numbered) (start : Word) (state : Option Segment) :
    (m.reset start state).Numbered := by
  have cleared := remove_numbered numbered start false
  unfold reset
  cases state with
  | none => exact cleared
  | some s =>
    cases restored : (m.remove start false).1.restore s with
    | error e =>
      simp only [restored]
      exact cleared
    | ok after =>
      simp only [restored]
      simp only [restore] at restored
      split_ifs at restored
      cases restored
      exact put_numbered cleared (Nat.le_max_left _ _) (Nat.le_max_right _ _)

theorem put_user (m : SegmentMap) {s : Segment} (user : s.auto = false) :
    m.put s = m.withUserSegment s.start (some s) := by
  simp [put, withLayer, user, layer, withUserSegment, Table.alter]

theorem add_user {s : Segment} (sound : m.Sound) (numbered : m.Numbered)
    (wellFormed : s.WellFormed) (user : s.auto = false) (free : ¬ m.Occupied s) :
    ∃ stored : Segment, stored.start = s.start ∧ stored.auto = false ∧
      m.userSegments.get? stored.start = none ∧
      m.add s = .ok ({ m with lastId := stored.id }.withUserSegment stored.start (some stored),
        stored.id) ∧
      ({ m with lastId := stored.id }.withUserSegment stored.start (some stored)).byId? stored.id =
        some stored ∧
      ({ m with lastId := stored.id }.withUserSegment stored.start (some stored)).Sound ∧
      ({ m with lastId := stored.id }.withUserSegment stored.start (some stored)).Numbered := by
  have new := get?_of_free free sound
  have added := add_of_free sound wellFormed free
  have added_sound := add_sound sound wellFormed added
  have shown := byId?_put_next numbered s
  have still_numbered := put_numbered numbered (Nat.le_add_right m.lastId 1)
    (s := { s with id := m.lastId + 1 }) (Nat.le_refl _)
  have put_eq := put_user { m with lastId := m.lastId + 1 }
    (s := { s with id := m.lastId + 1 }) user
  rw [put_eq] at added shown still_numbered added_sound
  rw [user] at new
  exact ⟨{ s with id := m.lastId + 1 }, rfl, user, new, added, shown, added_sound, still_numbered⟩

theorem reset_some {s : Segment} (user : s.auto = false)
    (sound : (m.withUserSegment s.start (some s)).Sound) :
    m.reset s.start (some s) =
      { m with lastId := max m.lastId s.id }.withUserSegment s.start (some s) := by
  have here : (m.withUserSegment s.start (some s)).userSegments.get? s.start = some s := by
    simp [withUserSegment, Table.get?_alter]
  have clear : ∀ rival, ((m.remove s.start false).1.layer s.auto).rival? s = some rival →
      rival.range.overlaps s.range = false ∧ rival.start ≠ s.start := by
    intro rival found
    rw [user, remove, layer_withLayer, if_pos rfl] at found
    obtain ⟨start, held⟩ := SegmentLayer.rival?_held found
    obtain ⟨elsewhere, held⟩ := Table.get?_erase_eq_some_iff.1 held
    have kept : (m.withUserSegment s.start (some s)).userSegments.get? start = some rival := by
      rw [withUserSegment, Table.get?_alter, if_neg elsewhere]
      exact held
    refine ⟨SegmentLayer.disjoint sound.user kept here elsewhere, ?_⟩
    rw [sound.user.filed kept]
    exact elsewhere
  have admitted : (m.remove s.start false).1.restore s =
      .ok ({ m with lastId := max m.lastId s.id }.withUserSegment s.start (some s)) := by
    simp only [restore]
    rw [if_neg]
    · simp [put, user, withLayer, layer, remove, Table.insert_erase, withUserSegment, Table.alter]
    · cases found : ((m.remove s.start false).1.layer s.auto).rival? s with
      | none => simp
      | some rival =>
        obtain ⟨apart, elsewhere⟩ := clear rival found
        simp [apart, elsewhere]
  simp only [reset, admitted]

theorem resetSection_eq (m : SegmentMap) {name : String} {state : Option Section}
    (filed : ∀ s, state = some s → s.name = name ∧ s.auto = false) :
    m.resetSection name state = m.withUserSection name state := by
  cases state with
  | none => rfl
  | some s =>
    obtain ⟨rfl, user⟩ := filed s rfl
    simp [resetSection, removeSection, addSection, user, withUserSection, Table.alter,
      Table.insert_erase]

end SegmentMap

end BinaryAtlas
