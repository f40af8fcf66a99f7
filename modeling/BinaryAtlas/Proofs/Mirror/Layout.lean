import BinaryAtlas.Proofs.Mirror.Following
import BinaryAtlas.Space.Layout

/-!
How changes of segments and sections are told, and how they are taken back.
-/

set_option autoImplicit false

namespace BinaryAtlas

namespace SegmentMap

variable {m after : SegmentMap}

theorem put_same {s : Segment} (held : (m.layer s.auto).get? s.start = some s) : m.put s = m := by
  have same : (m.layer s.auto).insert s.start s = m.layer s.auto := Table.alter_same held
  unfold put
  rw [same]
  cases s.auto <;> rfl

theorem remove_none {start : Word} {auto : Bool} (absent : (m.layer auto).get? start = none) :
    (m.remove start auto).1 = m := by
  have same : (m.layer auto).erase start = m.layer auto := Table.alter_same absent
  unfold remove
  rw [same]
  cases auto <;> rfl

theorem removeSection_none {name : String} {auto : Bool}
    (absent : (m.removeSection name auto).2 = none) : (m.removeSection name auto).1 = m := by
  cases auto with
  | true =>
    have same : m.autoSections.erase name = m.autoSections := Table.alter_same absent
    exact congrArg (fun t => { m with autoSections := t }) same
  | false =>
    have same : m.userSections.erase name = m.userSections := Table.alter_same absent
    exact congrArg (fun t => { m with userSections := t }) same

theorem removeSection_some (filed : m.Filed) {name : String} {auto : Bool} {s : Section}
    (removed : (m.removeSection name auto).2 = some s) : s.name = name ∧ s.auto = auto := by
  cases auto with
  | true => exact filed.autoSections removed
  | false => exact filed.userSections removed

theorem addSection_replaced (m : SegmentMap) (s : Section) :
    (m.addSection s).2 = (m.removeSection s.name s.auto).2 := by
  unfold addSection removeSection
  split <;> rfl

theorem addSection_removeSection (m : SegmentMap) (s : Section) :
    ((m.removeSection s.name s.auto).1.addSection s).1 = (m.addSection s).1 := by
  unfold addSection removeSection
  split <;> simp only [Table.insert_erase]

theorem bare_addRelocation (filed : m.Filed) (range : AddressRange) :
    (m.addRelocation range).1.bare = m.bare := by
  unfold addRelocation
  cases found : m.at? range.start with
  | none => rfl
  | some s =>
    simp only
    split
    · rfl
    · obtain ⟨auto, start, held⟩ := mem_allSegments_iff.1 (mem_of_at? found).1
      obtain ⟨rfl, rfl⟩ := filed.segments held
      rw [bare_put]
      exact (bare_put m s).symm.trans (congrArg bare (put_same held))

end SegmentMap

namespace Space

open Op

variable {s : Space}

theorem withMap_keyed (keyed : s.Keyed) {map : SegmentMap} (filed : map.Filed) :
    Keyed { s with map := map } :=
  ⟨filed, keyed.metadata, keyed.undoLog⟩

section Segments

theorem addSegment_mirrored (segment : Segment) : Mirrored (addSegment segment) := by
  intro s keyed
  refine leads_read_bind ?_
  cases added : s.map.add segment with
  | error e => exact leads_pure ⟨keyed, rfl⟩
  | ok outcome =>
    obtain ⟨map, id⟩ := outcome
    have now := withMap_keyed keyed (SegmentMap.add_filed keyed.map added)
    have shown := SegmentMap.byId?_put_next keyed.map.numbered segment
    simp only [SegmentMap.add] at added
    split_ifs at added
    cases added
    refine leads_modify_bind rfl ?_
    simp only [shown]
    refine told_follows now ?_ ?_ _
    · trivial
    · exact congrArg (fun map => { s.mirror with map := map }) (SegmentMap.bare_put
        { s.map with lastId := s.map.lastId + 1 } { segment with id := s.map.lastId + 1 }).symm

theorem hearAll_segmentRemoved (filed : s.map.Filed) (start : Word) (auto : Bool) :
    s.mirror.hearAll ((s.map.remove start auto).2.toList.map ChangeEvent.segmentRemoved) =
      { s.mirror with map := (s.map.remove start auto).1.bare } := by
  cases held : (s.map.layer auto).get? start with
  | none =>
    rw [SegmentMap.remove_none held, show (s.map.remove start auto).2 = none from held]
    rfl
  | some segment =>
    obtain ⟨rfl, rfl⟩ := filed.segments held
    rw [show (s.map.remove segment.start segment.auto).2 = some segment from held,
      SegmentMap.bare_remove]
    rfl

theorem removeSegment_mirrored (start : Word) (auto : Bool) :
    Mirrored (removeSegment start auto) := by
  intro s keyed
  have now := withMap_keyed keyed (SegmentMap.remove_filed keyed.map start auto)
  have heard := hearAll_segmentRemoved keyed.map start auto
  refine leads_update_bind rfl ?_
  generalize s.map.remove start auto = outcome at now heard ⊢
  obtain ⟨map, removed⟩ := outcome
  cases removed with
  | none => exact leads_pure ⟨now, heard⟩
  | some segment =>
    refine told_follows now ?_ heard true
    trivial

theorem restoreSegment_mirrored (start : Word) (state : Option Segment) :
    Mirrored (restoreSegment start state) := by
  intro s keyed
  have removed := SegmentMap.remove_filed keyed.map start false
  have gone := hearAll_segmentRemoved keyed.map start false
  cases state with
  | none => exact leads_update_bind rfl (emit_follows (withMap_keyed keyed removed) gone)
  | some segment =>
    cases restored : (s.map.remove start false).1.restore segment with
    | error e =>
      refine leads_update_bind ?_ ?_
      · simp only [restored]
      · simp only [restored]
        exact emit_follows (withMap_keyed keyed removed) gone
    | ok map =>
      refine leads_update_bind ?_ ?_
      · simp only [restored]
      · simp only [restored]
        refine emit_follows (withMap_keyed keyed (SegmentMap.restore_filed removed restored)) ?_
        rw [Mirror.hearAll_append, gone]
        simp only [SegmentMap.restore] at restored
        split_ifs at restored
        cases restored
        exact congrArg (fun map => { s.mirror with map := map }) (SegmentMap.bare_put
          { (s.map.remove start false).1 with
            lastId := max (s.map.remove start false).1.lastId segment.id } segment).symm

theorem defineRelocation_mirrored (range : AddressRange) : Mirrored (defineRelocation range) :=
  fun s keyed => leads_update rfl
    ⟨withMap_keyed keyed (SegmentMap.addRelocation_filed keyed.map range),
      congrArg (fun map => { s.mirror with map := map })
        (SegmentMap.bare_addRelocation keyed.map range).symm⟩

end Segments

section Sections

theorem hearAll_sectionRemoved (filed : s.map.Filed) (name : String) (auto : Bool) :
    s.mirror.hearAll ((s.map.removeSection name auto).2.toList.map ChangeEvent.sectionRemoved) =
      { s.mirror with map := (s.map.removeSection name auto).1.bare } := by
  cases removed : (s.map.removeSection name auto).2 with
  | none =>
    rw [SegmentMap.removeSection_none removed]
    rfl
  | some section_ =>
    obtain ⟨rfl, rfl⟩ := SegmentMap.removeSection_some filed removed
    rw [SegmentMap.bare_removeSection]
    rfl

theorem hearAll_sectionAdded (filed : s.map.Filed) (section_ : Section) :
    s.mirror.hearAll ((s.map.addSection section_).2.toList.map ChangeEvent.sectionRemoved ++
        [.sectionAdded section_]) =
      { s.mirror with map := (s.map.addSection section_).1.bare } := by
  rw [Mirror.hearAll_append, SegmentMap.addSection_replaced,
    hearAll_sectionRemoved filed section_.name section_.auto,
    ← SegmentMap.addSection_removeSection, SegmentMap.bare_addSection]
  rfl

theorem addSection_mirrored (section_ : Section) (auto : Bool) :
    Mirrored (addSection section_ auto) := by
  intro s keyed
  refine leads_update_bind rfl (recordIf_bind_leads (emit_follows (noted_keyed ?_ _ ?_) ?_))
  · exact withMap_keyed keyed (SegmentMap.addSection_filed keyed.map _)
  · trivial
  · exact hearAll_sectionAdded keyed.map _

theorem removeSection_mirrored (name : String) (auto : Bool) :
    Mirrored (removeSection name auto) := by
  intro s keyed
  have now := withMap_keyed keyed (SegmentMap.removeSection_filed keyed.map name auto)
  have heard := hearAll_sectionRemoved keyed.map name auto
  refine leads_update_bind rfl ?_
  generalize s.map.removeSection name auto = outcome at now heard ⊢
  obtain ⟨map, removed⟩ := outcome
  cases removed with
  | none => exact leads_pure ⟨now, heard⟩
  | some section_ =>
    refine told_follows now ?_ heard true
    trivial

theorem restoreSection_mirrored (name : String) (state : Option Section) :
    Mirrored (restoreSection name state) := by
  intro s keyed
  have removed := SegmentMap.removeSection_filed keyed.map name false
  have gone := hearAll_sectionRemoved keyed.map name false
  cases state with
  | none => exact leads_update_bind rfl (emit_follows (withMap_keyed keyed removed) gone)
  | some section_ =>
    refine leads_update_bind rfl (emit_follows
      (withMap_keyed keyed (SegmentMap.addSection_filed removed section_)) ?_)
    rw [Mirror.hearAll_append, gone]
    exact congrArg (fun map => { s.mirror with map := map })
      (SegmentMap.bare_addSection _ section_).symm

end Sections

end Space

end BinaryAtlas
