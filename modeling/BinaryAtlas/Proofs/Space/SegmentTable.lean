import BinaryAtlas.Proofs.Space.Making
import BinaryAtlas.Proofs.Space.Replaying
import Mathlib.Tactic.Tauto

/-!
The segments of a space that starts empty, whatever is added, removed, taken back and done again:
they keep apart, and a number stands for one segment from when it is issued.
-/

set_option autoImplicit false

namespace BinaryAtlas

/-- What is done to the segments of a space. -/
inductive LayoutEdit where
  | add (start length dataOffset dataLength : Word) (flags : SegmentFlags) (auto : Bool)
  | remove (start : Word) (auto : Bool)
  | relocate (range : AddressRange)
  | undo
  | redo

namespace LayoutEdit

/-- Does the edit. The answer holds the segment that was issued a number, if one was. -/
def run : LayoutEdit → Op (List Segment)
  | add start length dataOffset dataLength flags auto => do
    match ← Space.addSegmentOfLayout start length dataOffset dataLength flags auto with
    | .error _ => pure []
    | .ok id => Op.read fun s => (s.map.byId? id).toList
  | remove start auto => do
    let _ ← Space.removeSegment start auto
    pure []
  | relocate range => do
    let _ ← Space.defineRelocation range
    pure []
  | undo => do
    let _ ← Space.undo
    pure []
  | redo => do
    let _ ← Space.redo
    pure []

end LayoutEdit

namespace UndoAction

/-- An action on a user segment that was issued. -/
def OnIssued (issued : List Segment) : UndoAction → Prop
  | .segment start before after => ∀ s, before = some s ∨ after = some s →
      s.WellFormed ∧ s.start = start ∧ s.auto = false ∧ s.bare ∈ issued
  | _ => False

variable {issued more : List Segment} {action : UndoAction}

theorem OnIssued.later (known : action.OnIssued issued) (grown : issued ⊆ more) :
    action.OnIssued more := by
  cases action with
  | segment start before after =>
    intro s present
    obtain ⟨wellFormed, filed, user, member⟩ := known s present
    exact ⟨wellFormed, filed, user, grown member⟩
  | _ => exact known

theorem OnIssued.inverse (known : action.OnIssued issued) :
    (Space.inverse action).OnIssued issued := by
  cases action with
  | segment start before after => exact fun s present => known s present.symm
  | _ => exact known

end UndoAction

namespace SegmentMap

variable {issued : List Segment} {m : SegmentMap}

theorem reset_accounted (accounted : m.Accounted issued) (start : Word) {state : Option Segment}
    (known : ∀ s, state = some s →
      s.WellFormed ∧ s.start = start ∧ s.auto = false ∧ s.bare ∈ issued) :
    (m.reset start state).Accounted issued := by
  have cleared := remove_accounted accounted start false
  unfold reset
  cases state with
  | none => exact cleared
  | some s =>
    obtain ⟨wellFormed, rfl, user, member⟩ := known s rfl
    have new : ((m.remove s.start false).1.layer s.auto).get? s.start = none := by
      rw [user, remove, layer_withLayer, if_pos rfl]
      exact Table.get?_erase_self _ _
    cases restored : (m.remove s.start false).1.restore s with
    | ok after =>
      simp only [restored]
      exact restore_accounted cleared wellFormed member new restored
    | error e =>
      simp only [restored]
      exact cleared

end SegmentMap

namespace Space

/-- The segments of the space and those its log speaks of were issued, each under a number of its
own. -/
structure Accounted (issued : List Segment) (s : Space) : Prop where
  map : s.map.Accounted issued
  log : s.undoLog.Holds (·.OnIssued issued)
  recording : s.undoLog.replaying = false

variable {issued : List Segment} {s after : Space}

theorem redoAction_accounted (accounted : s.map.Accounted issued) {action : UndoAction}
    (known : action.OnIssued issued) :
    ((redoAction action) s).collect.2.2.map.Accounted issued ∧
      ((redoAction action) s).collect.2.2.undoLog = s.undoLog := by
  cases action with
  | segment start before after =>
    have settles := restoreSegment_settles s start after
    rw [redoAction, settles.map, settles.undoLog]
    exact ⟨SegmentMap.reset_accounted accounted start fun t present => known t (.inr present), rfl⟩
  | _ => exact known.elim

theorem replayed_accounted (accounted : s.map.Accounted issued) {actions : List UndoAction}
    (known : ∀ action ∈ actions, action.OnIssued issued) (log : UndoLog) :
    (replayed actions log s).map.Accounted issued ∧
      (replayed actions log s).undoLog = { log with replaying := true } := by
  have initial : ({ s with undoLog := { log with replaying := true } } : Space).map.Accounted
      issued := accounted
  let kept (s : Space) : Prop := s.map.Accounted issued ∧ s.undoLog = { log with replaying := true }
  have each : ∀ action ∈ actions, ∀ s, kept s → kept ((redoAction action) s).collect.2.2 := by
    intro action member s before
    obtain ⟨map, same⟩ := redoAction_accounted before.1 (known action member)
    exact ⟨map, same.trans before.2⟩
  exact Op.forEach_collect_invariant each ⟨initial, rfl⟩

theorem undo_accounted (accounted : s.Accounted issued) :
    ((undo) s).collect.2.2.Accounted issued := by
  by_cases refused : s.undoLog.inGroup = true ∨ s.undoLog.past = []
  · rw [undo_refused refused]
    exact accounted
  · obtain ⟨entry, earlier, outside, latest⟩ := undo_admitted refused
    have known : ∀ action ∈ entry.reverse.map inverse, action.OnIssued issued := by
      intro action member
      obtain ⟨done, done_member, rfl⟩ := List.mem_map.1 member
      have past := accounted.log.past entry (by simp [latest])
      exact (past done (List.mem_reverse.1 done_member)).inverse
    obtain ⟨map, log⟩ := replayed_accounted accounted.map known { s.undoLog with past := earlier }
    rw [collect_undo outside latest, withLog, log]
    exact ⟨map, UndoLog.undone_holds accounted.log latest false, rfl⟩

theorem redo_accounted (accounted : s.Accounted issued) :
    ((redo) s).collect.2.2.Accounted issued := by
  by_cases refused : s.undoLog.inGroup = true ∨ s.undoLog.future = []
  · rw [redo_refused refused]
    exact accounted
  · obtain ⟨entry, later, outside, next⟩ := redo_admitted refused
    have known := accounted.log.future entry (by simp [next])
    obtain ⟨map, log⟩ := replayed_accounted accounted.map known { s.undoLog with future := later }
    rw [collect_redo outside next, withLog, log]
    exact ⟨map, UndoLog.redone_holds accounted.log next false, rfl⟩

theorem noted_accounted (map : s.map.Accounted issued) (log : s.undoLog.Holds (·.OnIssued issued))
    (recording : s.undoLog.replaying = false) {condition : Bool} {action : UndoAction}
    (known : condition = true → action.OnIssued issued) :
    (noted condition action s).Accounted issued := by
  cases condition with
  | false => exact ⟨map, log, recording⟩
  | true =>
    exact ⟨map, UndoLog.record_holds log (known rfl),
      (UndoLog.record_replaying s.undoLog action).trans recording⟩

theorem settled_accounted {α : Type} {op : Op α} {answer : α} (settles : op.Settles s answer after)
    (accounted : after.Accounted issued) : (op s).collect.2.2.Accounted issued := by
  constructor
  · rw [settles.map]
    exact accounted.map
  · rw [settles.undoLog]
    exact accounted.log
  · rw [settles.undoLog]
    exact accounted.recording

theorem addSegment_accounted (accounted : s.Accounted issued) {segment : Segment}
    (wellFormed : segment.WellFormed) (bare : segment.relocations = []) {map : SegmentMap}
    {id : Nat} (added : s.map.add segment = .ok (map, id)) :
    ((addSegment segment) s).collect.2.1 = .ok id ∧
      ((addSegment segment) s).collect.2.2.map.byId? id = some { segment with id := id } ∧
      ((addSegment segment) s).collect.2.2.Accounted ({ segment with id := id } :: issued) := by
  obtain ⟨map_accounted, held⟩ :=
    SegmentMap.add_accounted accounted.map wellFormed bare added
  have shown : map.byId? id = some { segment with id := id } := map_accounted.byId?_eq held
  have settles := addSegment_settles added shown
  refine ⟨settles.1, by rw [settles.map]; exact shown, settled_accounted settles ?_⟩
  apply noted_accounted map_accounted
  · exact accounted.log.imp fun action known => known.later (List.subset_cons_self _ _)
  · exact accounted.recording
  · intro user t present
    simp only [reduceCtorEq, Option.some.injEq, false_or] at present
    subst present
    refine ⟨⟨wellFormed.stored, wellFormed.within⟩, rfl, by simpa using user, ?_⟩
    simp [Segment.bare, bare]

theorem removeSegment_accounted (accounted : s.Accounted issued) (start : Word) (auto : Bool) :
    ((removeSegment start auto) s).collect.2.2.Accounted issued := by
  have removed := SegmentMap.remove_accounted accounted.map start auto
  have settles := removeSegment_settles s start auto
  cases held : (s.map.layer auto).get? start with
  | none =>
    simp only [held] at settles
    exact settled_accounted settles ⟨removed, accounted.log, accounted.recording⟩
  | some segment =>
    simp only [held] at settles
    refine settled_accounted settles ?_
    apply noted_accounted removed
    · exact accounted.log
    · exact accounted.recording
    · intro user t present
      simp only [reduceCtorEq, Option.some.injEq, or_false] at present
      subst present
      have layer_sound := accounted.map.sound.layer auto
      refine ⟨layer_sound.wellFormed held, layer_sound.filed held, ?_, accounted.map.known held⟩
      rw [accounted.map.sided held]
      simpa using user

theorem addLayout_accounted (accounted : s.Accounted issued)
    (start length dataOffset dataLength : Word) (flags : SegmentFlags) (auto : Bool) :
    let edit := LayoutEdit.add start length dataOffset dataLength flags auto
    ((edit.run s).collect.2.2).Accounted ((edit.run s).collect.2.1 ++ issued) := by
  simp only [LayoutEdit.run, addSegmentOfLayout]
  rw [Op.collect_bind]
  cases made : Segment.ofLayout start length dataOffset dataLength flags auto with
  | error e => exact accounted
  | ok segment =>
    obtain ⟨wellFormed, -, bare⟩ := Segment.ofLayout_eq_ok made
    cases added : s.map.add segment with
    | error e =>
      simp only [addSegment_refused added]
      exact accounted
    | ok outcome =>
      obtain ⟨map, id⟩ := outcome
      obtain ⟨answer, shown, after⟩ := addSegment_accounted accounted wellFormed bare added
      simp only [answer]
      show Accounted ((SegmentMap.byId? _ id).toList ++ issued) _
      rw [shown]
      exact after

theorem edit_accounted (accounted : s.Accounted issued) (edit : LayoutEdit) :
    ((edit.run s).collect.2.2).Accounted ((edit.run s).collect.2.1 ++ issued) := by
  cases edit with
  | add start length dataOffset dataLength flags auto =>
    exact addLayout_accounted accounted start length dataOffset dataLength flags auto
  | remove start auto =>
    rw [LayoutEdit.run, Op.collect_bind]
    exact removeSegment_accounted accounted start auto
  | relocate range =>
    rw [LayoutEdit.run, Op.collect_bind]
    exact ⟨SegmentMap.addRelocation_accounted accounted.map range, accounted.log,
      accounted.recording⟩
  | undo =>
    rw [LayoutEdit.run, Op.collect_bind]
    exact undo_accounted accounted
  | redo =>
    rw [LayoutEdit.run, Op.collect_bind]
    exact redo_accounted accounted

/-- The spaces that edits of segments lead to from an empty one, each with the segments that were
issued a number on the way. -/
inductive Laid : List Segment → Space → Prop where
  | built {plan : SpacePlan} {s : Space} (made : plan.build = .ok s) : Laid [] s
  | edited {issued : List Segment} {s : Space} (laid : Laid issued s) (edit : LayoutEdit) :
      Laid ((edit.run s).collect.2.1 ++ issued) (edit.run s).collect.2.2

theorem laid_accounted (laid : Laid issued s) : s.Accounted issued := by
  induction laid with
  | built made =>
    obtain ⟨storage, -, rfl⟩ := SpacePlan.build_eq_ok made
    exact ⟨SegmentMap.empty_accounted, UndoLog.empty_holds, rfl⟩
  | edited laid edit accounted => exact edit_accounted accounted edit

/-- However segments were added, removed, taken back and done again: those of one layer keep apart,
each under its start; numbers tell them apart and each was issued once, to the segment that has it;
the user's segment at an address is in effect there, or else the automatic one; and a new segment is
refused exactly if one of its layer is in the way, which leaves the space as it is. -/
theorem segment_table_correct (laid : Laid issued s) :
    (∀ auto start t, (s.map.layer auto).get? start = some t → t.start = start ∧ t.auto = auto) ∧
    (∀ auto, (s.map.layer auto).values.Pairwise fun t u => t.range.overlaps u.range = false) ∧
    (s.map.allSegments.map (·.id)).Nodup ∧
    ((issued.map (·.id)).Nodup ∧ ∀ t ∈ s.map.allSegments, t.bare ∈ issued) ∧
    (∀ auto a, ∀ t ∈ (s.map.layer auto).values, ∀ u ∈ (s.map.layer auto).values,
      t.contains a = true → u.contains a = true → t = u) ∧
    (∀ a t, s.map.at? a = some t ↔ t.contains a = true ∧
      (t ∈ s.map.userSegments.values ∨ t ∈ s.map.autoSegments.values ∧
        ∀ u ∈ s.map.userSegments.values, u.contains a = false)) ∧
    ∀ start length dataOffset dataLength flags auto segment,
      Segment.ofLayout start length dataOffset dataLength flags auto = .ok segment →
      (s.map.Occupied segment → (addSegment segment) s =
        .done (.error (.segmentOverlap segment.start segment.stop)) s) ∧
      (¬ s.map.Occupied segment → ∃ id, ((addSegment segment) s).collect.2.1 = .ok id) := by
  have accounted := laid_accounted laid
  have sound := accounted.map.sound
  refine ⟨?_, ?_, accounted.map.ids_nodup, ⟨accounted.map.distinct, ?_⟩, ?_, ?_, ?_⟩
  · exact fun auto start t held => ⟨(sound.layer auto).filed held, accounted.map.sided held⟩
  · exact fun auto => SegmentLayer.values_disjoint (sound.layer auto)
  · intro t member
    obtain ⟨auto, start, held⟩ := SegmentMap.mem_allSegments_iff.1 member
    exact accounted.map.known held
  · intro auto a t member u member' covers covers'
    have layer_sound := sound.layer auto
    have found := (SegmentLayer.at?_eq_some_iff_values layer_sound).2 ⟨member, covers⟩
    have found' := (SegmentLayer.at?_eq_some_iff_values layer_sound).2 ⟨member', covers'⟩
    exact Option.some.inj (found.symm.trans found')
  · intro a t
    rw [SegmentMap.at?_eq_some_iff, SegmentLayer.at?_eq_some_iff_values sound.user,
      SegmentLayer.at?_eq_some_iff_values sound.auto,
      SegmentLayer.at?_eq_none_iff_values sound.user]
    tauto
  · intro start length dataOffset dataLength flags auto segment made
    have wellFormed := Segment.ofLayout_wellFormed made
    constructor
    · exact fun occupied =>
        addSegment_refused (SegmentMap.add_of_occupied sound wellFormed occupied)
    · intro free
      obtain ⟨-, -, bare⟩ := Segment.ofLayout_eq_ok made
      have added := SegmentMap.add_of_free sound wellFormed free
      exact ⟨_, (addSegment_accounted accounted wellFormed bare added).1⟩

def emptySpace : Space :=
  { backend := .mapped "", storage := .inMemory [1, 2, 3, 4], map := .empty, metadata := .empty,
    functions := .empty, undoLog := .empty, scheduler := .initial, architecture := none,
    config := {}, parentView := none, bulk := ⟨0, []⟩, idsMade := 0 }

theorem relaid_table_correct : ∃ issued s, Laid issued s ∧ issued.map (·.id) = [2, 1] ∧
    (s.map.at? 0x14).map (·.id) = some 2 ∧ (s.map.allSegments.map (·.id)).Nodup := by
  have made : ({ storage := some (.inMemory [1, 2, 3, 4]) } : SpacePlan).build = .ok emptySpace :=
    rfl
  have laid := (((((Laid.built made).edited (.add 0x10 12 0 4 (.ofBits 7) true)).edited
    (.add 0x14 2 0 2 (.ofBits 7) false)).edited (.add 0x15 4 0 4 (.ofBits 7) false)).edited
    (.remove 0x14 false)).edited .undo
  refine ⟨_, _, laid, ?_, ?_, (segment_table_correct laid).2.2.1⟩
  · decide +kernel
  · decide +kernel

end Space

end BinaryAtlas
