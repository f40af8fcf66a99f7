import BinaryAtlas.Proofs.Mirror.Completeness
import BinaryAtlas.Proofs.Space.Forming
import BinaryAtlas.Proofs.Space.SegmentTable

/-!
Whether a space can be made again from its snapshot. Its settings pass their check again, and its
segments find the room that they had; but a view through segments is made by a kind of view that
takes no empty data, so that such a view of nothing can be saved and never be opened again.
-/

set_option autoImplicit false

namespace BinaryAtlas

namespace SegmentMap

variable {m : SegmentMap} {s : Segment} {items : List Segment}

/-- Two segments that can be in one map. -/
def Compatible (s t : Segment) : Prop :=
  s.auto = t.auto → s.range.overlaps t.range = false ∧ s.start ≠ t.start

theorem Compatible.symm {s t : Segment} (compatible : Compatible s t) : Compatible t s := by
  intro same
  obtain ⟨apart, other⟩ := compatible same.symm
  refine ⟨?_, other.symm⟩
  rw [← apart]
  simp [AddressRange.overlaps, Bool.and_comm]

theorem restore_of_compatible (filed : m.Filed) (compatible : ∀ t ∈ m.allSegments, Compatible t s) :
    m.restore s = .ok ({ m with lastId := max m.lastId s.id }.put s) := by
  unfold restore
  cases found : (m.layer s.auto).rival? s with
  | none => rfl
  | some rival =>
    obtain ⟨start, held⟩ := SegmentLayer.rival?_held found
    obtain ⟨apart, other⟩ := compatible rival (mem_allSegments_iff.2 ⟨_, start, held⟩)
      (filed.segments held).2
    simp [apart, other]

/-- Segments that are compatible with each other and with what is there all find room. -/
theorem restores_of_compatible (filed : m.Filed) (pairwise : items.Pairwise Compatible)
    (compatible : ∀ s ∈ items, ∀ t ∈ m.allSegments, Compatible t s) :
    ∃ after, items.foldlM (·.restore ·) m = .ok after := by
  induction items generalizing m with
  | nil => exact ⟨m, rfl⟩
  | cons s rest ih =>
    obtain ⟨first, later⟩ := List.pairwise_cons.1 pairwise
    have restored := restore_of_compatible filed (compatible s List.mem_cons_self)
    rw [List.foldlM_cons, restored]
    refine ih (restore_filed filed restored) later fun u member t held => ?_
    obtain ⟨side, start, held⟩ := mem_allSegments_iff.1 held
    rcases get?_put held with ⟨-, -, rfl⟩ | older
    · exact first u member
    · exact compatible u (List.mem_cons_of_mem s member) t
        (mem_allSegments_iff.2 ⟨side, start, older⟩)

theorem LaidOut.layer_compatible (laid : m.LaidOut) (auto : Bool) :
    (m.layer auto).values.Pairwise Compatible := by
  rw [Table.values, List.pairwise_map]
  refine (m.layer auto).ascending.imp_of_mem fun {first later} member member' before _ => ?_
  have held := Table.get?_eq_some_iff.2 member
  have held' := Table.get?_eq_some_iff.2 member'
  have other : first.1 ≠ later.1 := by
    intro same
    rw [same] at before
    simp at before
  refine ⟨SegmentLayer.disjoint (laid.sound.layer auto) held held' other, ?_⟩
  rw [(laid.filed.segments held).1, (laid.filed.segments held').1]
  exact other

/-- The segments of a map that is laid out as it should be can be put into an empty one. -/
theorem LaidOut.restores (laid : m.LaidOut) :
    ∃ after, Snapshot.restoreSegments m.segments = .ok after := by
  have sides {s t : Segment} (user : s ∈ (m.layer false).values)
      (auto : t ∈ (m.layer true).values) : Compatible s t := by
    intro same
    obtain ⟨_, held⟩ := (Table.mem_values_iff _ s).1 user
    obtain ⟨_, held'⟩ := (Table.mem_values_iff _ t).1 auto
    rw [(laid.filed.segments held).2, (laid.filed.segments held').2] at same
    cases same
  have pairwise : m.allSegments.Pairwise Compatible :=
    List.pairwise_append.2 ⟨laid.layer_compatible false, laid.layer_compatible true,
      fun s user t auto => sides user auto⟩
  have sorted : m.segments.Pairwise Compatible :=
    ((List.mergeSort_perm m.allSegments inOrder).pairwise_iff Compatible.symm).2 pairwise
  exact restores_of_compatible empty_filed sorted fun s _ t none => nomatch none

end SegmentMap

namespace SpacePlan

theorem build_of_valid {plan : SpacePlan} {storage : Storage}
    (valid : ((plan.config <|> plan.parent.map (·.config)).getD {}).validate = .ok ())
    (given : (plan.storage <|> plan.parent.map (·.storage)) = some storage) :
    ∃ s, plan.build = .ok s := by
  simp only [build, bind, Except.bind, valid, given]
  exact ⟨_, rfl⟩

end SpacePlan

namespace Space

variable {data : Space}

theorem derive_of_valid (valid : data.config.validate = .ok ()) (backend : Backend) :
    ∃ view, data.derive backend = .ok view :=
  @SpacePlan.build_of_valid { parent := some data, backend := some backend } _ valid rfl

end Space

namespace ViewType

variable {data : Space}

/-- A view from address 0 on has room for whatever is stored. -/
theorem create_mapped_of_valid (valid : data.config.validate = .ok ()) :
    ∃ view, (mapped 0).create data = .ok view := by
  obtain ⟨fresh, derived⟩ := Space.derive_of_valid valid (.mapped "")
  obtain ⟨-, map, -⟩ := Space.derive_eq_ok derived
  have room : Word.add? 0 fresh.storage.length = some fresh.storage.length :=
    Word.add?_eq_some_iff.2 (by simp)
  obtain ⟨segment, laid⟩ : ∃ segment, Segment.ofLayout 0 fresh.storage.length 0
      fresh.storage.length mappedFlags true = .ok segment := by
    simp [Segment.ofLayout, room]
  obtain ⟨wellFormed, -, bare⟩ := Segment.ofLayout_eq_ok laid
  have free : ¬ SegmentMap.empty.Occupied segment := by
    rintro ⟨_, member, _⟩
    cases side : segment.auto <;> simp [side, SegmentMap.layer, SegmentMap.empty] at member
    all_goals cases member
  obtain ⟨after, id, added⟩ : ∃ after id, SegmentMap.empty.add segment = .ok (after, id) :=
    ⟨_, _, SegmentMap.add_of_free SegmentMap.empty_laidOut.sound wellFormed free⟩
  obtain ⟨now, held⟩ := SegmentMap.add_accounted SegmentMap.empty_accounted wellFormed bare added
  rw [← map] at added
  obtain ⟨answer, -⟩ := Space.addSegment_settles added (now.byId?_eq held)
  simp only [create, bind, Except.bind, derived, Space.addSegmentOfLayout, laid]
  rcases told : ((Space.addSegment segment) fresh).collect with ⟨notices, result, view⟩
  rw [told] at answer
  cases answer
  exact ⟨view, rfl⟩

end ViewType

namespace ViewTypeRegistry

theorem standard_get? (name : String) : standard.get? name =
    if name = "Raw" then some .raw else if name = "Mapped" then some (.mapped 0) else none := by
  have types : standard.types = [.raw, .mapped 0] := rfl
  simp only [get?, types, List.find?_cons, List.find?_nil, ViewType.name, beq_eq_decide]
  by_cases raw : name = "Raw"
  · simp [raw]
  · by_cases mapped : name = "Mapped"
    · simp [mapped]
    · simp [raw, mapped, Ne.symm raw, Ne.symm mapped]

end ViewTypeRegistry

namespace Snapshot

variable {snapshot : Snapshot}

/-- With valid settings a view is made of anything but of nothing through segments. -/
theorem restoreView_standard (valid : snapshot.config.validate = .ok ()) :
    if snapshot.viewType = "Mapped" ∧ snapshot.contents = [] then
      snapshot.restoreView .standard =
        .error (.invalidArgument "view type Mapped does not accept this data")
    else ∃ view, snapshot.restoreView .standard = .ok view := by
  let plan : SpacePlan :=
    { storage := some ⟨.memory, snapshot.contents, .ofRuns snapshot.modifications⟩
      backend := some .raw
      architecture := snapshot.architecture.bind ArchitectureRegistry.standard.get?
      config := some snapshot.config }
  obtain ⟨data, built⟩ := @SpacePlan.build_of_valid plan _ valid rfl
  obtain ⟨storage, given, data_eq⟩ := SpacePlan.build_eq_ok built
  cases given
  have type : data.viewType = "Raw" := by rw [data_eq]; rfl
  have config : data.config.validate = .ok () := by rw [data_eq]; exact valid
  have bytes : (ViewType.mapped 0).accepts data = true ↔ snapshot.contents ≠ [] := by
    have length : data.storage.length = .ofNatCapped snapshot.contents.length := by
      rw [data_eq]
      rfl
    simp only [ViewType.accepts, length, decide_eq_true_eq, UInt64.lt_iff_toNat_lt,
      Word.toNat_ofNatCapped, ← List.length_pos_iff, UInt64.toNat_zero]
    omega
  have opens : snapshot.restoreView .standard =
      if snapshot.viewType = data.viewType then pure data
      else if (ViewTypeRegistry.standard.get? snapshot.viewType).isSome then
        ViewTypeRegistry.standard.create snapshot.viewType data
      else data.derive (.mapped snapshot.viewType) := by
    show (plan.build >>= _) = _
    rw [built]
    rfl
  rw [opens, type]
  by_cases raw : snapshot.viewType = "Raw"
  · rw [if_neg (by simp [raw]), if_pos raw]
    exact ⟨data, rfl⟩
  by_cases mapped : snapshot.viewType = "Mapped"
  · have known : ViewTypeRegistry.standard.get? "Mapped" = some (.mapped 0) := rfl
    simp only [mapped, true_and, ViewTypeRegistry.create, known]
    by_cases nothing : snapshot.contents = []
    · have refused : (ViewType.mapped 0).accepts data = false :=
        Bool.eq_false_iff.2 fun accepted => bytes.1 accepted nothing
      simp [nothing, refused]
      rfl
    · simp only [bytes.2 nothing, nothing]
      exact ViewType.create_mapped_of_valid config
  · rw [if_neg (by simp [mapped]), if_neg raw, ViewTypeRegistry.standard_get?, if_neg raw,
      if_neg mapped]
    exact Space.derive_of_valid config _

end Snapshot

namespace Space

variable {x : Space}

/-- Whatever was done to a space, it can be made again from its snapshot, unless it is a view of
nothing through segments. -/
theorem saved_space_opens (formed : x.Formed) (savedAt : Timestamp) :
    if x.viewType = "Mapped" ∧ x.storage.wholeContents = [] then
      (x.snapshot savedAt).restore .standard =
        .error (.invalidArgument "view type Mapped does not accept this data")
    else ∃ y, (x.snapshot savedAt).restore .standard = .ok y := by
  have laid := formed.laidOut
  have opened := @Snapshot.restoreView_standard (x.snapshot savedAt) laid.config
  obtain ⟨map, restored⟩ := laid.map.restores
  have segments : Snapshot.restoreSegments (x.snapshot savedAt).segments = .ok map := restored
  simp only [Snapshot.restore, bind, Except.bind]
  split at opened
  · rename_i condition
    have nothing : x.viewType = "Mapped" ∧ x.storage.wholeContents = [] := condition
    rw [if_pos nothing, opened]
  · rename_i condition
    have something : ¬ (x.viewType = "Mapped" ∧ x.storage.wholeContents = []) := condition
    obtain ⟨view, opened⟩ := opened
    rw [if_neg something, opened]
    simp only [segments]
    exact ⟨_, rfl⟩

def userPart : Segment := ⟨0, ⟨0x10, 0x14⟩, 0, 4, .ofBits 7, false, []⟩

def autoPart : Segment := ⟨0, ⟨0x12, 0x1a⟩, 1, 2, .ofBits 7, true, []⟩

def furnishedEdits : List SpaceEdit :=
  [.addSegment userPart, .addSegment autoPart, .write 0x10 [5, 3, 0, 1],
    .setArchitecture (some Toy.little), .storeValue "k" (.bool true) false,
    .createUserFunction 0x10, .addReference 0x10 0x12, .undo]

theorem furnished_space_opens :
    ∃ y, ((emptySpace.afterwards furnishedEdits).snapshot ⟨0, 0⟩).restore .standard = .ok y := by
  have start := formed_of_contents emptySpace_built fun _ => ⟨by decide, by decide⟩
  have wellFormed : ∀ edit ∈ furnishedEdits, edit.WellFormed := by
    have user : userPart.WellFormed := ⟨by decide, by decide⟩
    have auto : autoPart.WellFormed := ⟨by decide, by decide⟩
    simp [furnishedEdits, SpaceEdit.WellFormed, user, auto]
  have formed := afterwards_formed start wellFormed (by decide +kernel)
  have opens := saved_space_opens formed ⟨0, 0⟩
  rwa [if_neg (by decide +kernel)] at opens

/-- A view of nothing. -/
def bareSpace : Space := { emptySpace with storage := .inMemory [] }

/-- What is saved of a view of nothing cannot be opened. -/
theorem bare_space_refused :
    bareSpace.Formed ∧ bareSpace.backend = .mapped "" ∧
      (bareSpace.snapshot ⟨0, 0⟩).restore .standard =
        .error (.invalidArgument "view type Mapped does not accept this data") := by
  have made : ({ storage := some (.inMemory []) } : SpacePlan).build = .ok bareSpace := rfl
  exact ⟨formed_of_contents made fun _ => ⟨by decide, by decide⟩, rfl, rfl⟩

end Space

end BinaryAtlas
