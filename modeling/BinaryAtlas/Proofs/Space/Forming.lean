import BinaryAtlas.Proofs.Snapshot.Restoring
import BinaryAtlas.Proofs.Space.Steadying

/-!
Spaces whose segments were all made by the constructor of segments, which lets none wrap around or
store more than it maps. Their layers hold segments that keep apart, also what an undo brings back.
-/

set_option autoImplicit false

namespace BinaryAtlas

namespace UndoAction

/-- The user segments that an action takes out or puts in are as they were made. -/
def WellFormed : UndoAction → Prop
  | segment start before after => ∀ s, before = some s ∨ after = some s →
      s.start = start ∧ s.auto = false ∧ s.WellFormed
  | _ => True

theorem wellFormed_of_plain {action : UndoAction} (plain : action.isLayout = false) :
    action.WellFormed := by
  cases action <;> trivial

end UndoAction

namespace SegmentMap

variable {m after : SegmentMap} {s : Segment}

/-- Segments keep apart, and everything is filed under its own key and on its own side. -/
structure LaidOut (m : SegmentMap) : Prop where
  sound : m.Sound
  filed : m.Filed

theorem empty_laidOut : empty.LaidOut :=
  ⟨⟨SegmentLayer.sound_empty, SegmentLayer.sound_empty⟩, empty_filed⟩

theorem add_laidOut (laid : m.LaidOut) (wellFormed : s.WellFormed) {id : Nat}
    (added : m.add s = .ok (after, id)) : after.LaidOut :=
  ⟨add_sound laid.sound wellFormed added, add_filed laid.filed added⟩

theorem remove_laidOut (laid : m.LaidOut) (start : Word) (auto : Bool) :
    (m.remove start auto).1.LaidOut :=
  ⟨remove_sound laid.sound start auto, remove_filed laid.filed start auto⟩

theorem restore_laidOut (laid : m.LaidOut) (wellFormed : s.WellFormed)
    (new : (m.layer s.auto).get? s.start = none) (restored : m.restore s = .ok after) :
    after.LaidOut := by
  refine ⟨?_, restore_filed laid.filed restored⟩
  simp only [restore] at restored
  split_ifs at restored with refused
  cases restored
  refine put_sound (m := { m with lastId := max m.lastId s.id }) ⟨laid.sound.auto, laid.sound.user⟩
    wellFormed new fun rival found => ?_
  have found : (m.layer s.auto).rival? s = some rival := found
  simp only [found, Bool.or_eq_true, not_or, Bool.not_eq_true] at refused
  exact refused.1

theorem addSection_laidOut (laid : m.LaidOut) (section_ : Section) :
    (m.addSection section_).1.LaidOut := by
  refine ⟨?_, addSection_filed laid.filed section_⟩
  unfold addSection
  split <;> exact ⟨laid.sound.auto, laid.sound.user⟩

theorem removeSection_laidOut (laid : m.LaidOut) (name : String) (auto : Bool) :
    (m.removeSection name auto).1.LaidOut := by
  refine ⟨?_, removeSection_filed laid.filed name auto⟩
  unfold removeSection
  split <;> exact ⟨laid.sound.auto, laid.sound.user⟩

theorem held_of_member (filed : m.Filed) (member : s ∈ m.allSegments) :
    (m.layer s.auto).get? s.start = some s := by
  obtain ⟨side, start, held⟩ := mem_allSegments_iff.1 member
  obtain ⟨rfl, rfl⟩ := filed.segments held
  exact held

theorem addRelocation_laidOut (laid : m.LaidOut) (range : AddressRange) :
    (m.addRelocation range).1.LaidOut := by
  refine ⟨?_, addRelocation_filed laid.filed range⟩
  unfold addRelocation
  cases found : m.at? range.start with
  | none => exact laid.sound
  | some s =>
    simp only
    split
    · exact laid.sound
    · exact put_relocated_sound laid.sound (held_of_member laid.filed (mem_of_at? found).1) _

/-- What a user put there is something that can be noted. -/
theorem LaidOut.noted (laid : m.LaidOut) {start : Word}
    (held : (m.layer false).get? start = some s) :
    s.start = start ∧ s.auto = false ∧ s.WellFormed :=
  ⟨(laid.filed.segments held).1, (laid.filed.segments held).2, laid.sound.user.wellFormed held⟩

end SegmentMap

namespace Space

open Op

structure LaidOut (s : Space) : Prop where
  map : s.map.LaidOut
  log : s.undoLog.Holds UndoAction.WellFormed
  config : s.config.validate = .ok ()

theorem laidOut_steady : Steady LaidOut where
  elsewhere here map config broadens _ :=
    ⟨map ▸ here.map, broadens _ (fun _ => UndoAction.wellFormed_of_plain) here.log,
      config ▸ here.config⟩

variable {α : Type}

abbrev KeepsLaidOut (op : Op α) : Prop := Lasts LaidOut op

theorem updateMap_laidOut {f : Space → Space × α}
    (map : ∀ s, s.map.LaidOut → (f s).1.map.LaidOut)
    (others : ∀ s, (f s).1.undoLog = s.undoLog ∧ (f s).1.config = s.config) :
    KeepsLaidOut (update f) :=
  preserves_update fun s here _ => ⟨⟨map s here.map, by rw [(others s).1]; exact here.log,
    by rw [(others s).2]; exact here.config⟩, trivial⟩

theorem record_laidOut {action : UndoAction} (wellFormed : action.WellFormed) :
    KeepsLaidOut (record action) :=
  fun _ here _ => ⟨⟨here.map, UndoLog.record_holds here.log wellFormed, here.config⟩, trivial⟩

theorem recordIf_laidOut {condition : Bool} {action : UndoAction}
    (wellFormed : condition = true → action.WellFormed) :
    KeepsLaidOut (recordIf condition action) := by
  cases condition with
  | false => exact preserves_pure ()
  | true => exact record_laidOut (wellFormed rfl)

theorem emit_laidOut (events : List ChangeEvent) : KeepsLaidOut (emit events) :=
  emit_lasts laidOut_steady events

section Layout

theorem addSegment_laidOut {segment : Segment} (wellFormed : segment.WellFormed) :
    KeepsLaidOut (addSegment segment) := by
  refine preserves_read_bind fun s here room => ?_
  cases added : s.map.add segment with
  | error e => exact ⟨here, room⟩
  | ok outcome =>
    obtain ⟨map, id⟩ := outcome
    have laid := SegmentMap.add_laidOut here.map wellFormed added
    have now : LaidOut { s with map := map } := ⟨laid, here.log, here.config⟩
    refine Run.always_bind (r := .done () _) ⟨now, room⟩ fun _ s here room => ?_
    cases found : map.byId? id with
    | none => exact ⟨here, room⟩
    | some stored =>
      have held := SegmentMap.held_of_member laid.filed (List.mem_of_find?_eq_some found)
      refine preserves_bind (recordIf_laidOut fun user => ?_) (fun _ => ?_) s here room
      · have side : stored.auto = false := by simpa using user
        rw [side] at held
        rintro t (nothing | same)
        · cases nothing
        · cases same
          exact laid.noted held
      · exact preserves_bind (emit_laidOut _) fun _ => preserves_pure _

/-- What is taken out of the user's side is noted as it was held there. -/
theorem removeSegment_laidOut (start : Word) (auto : Bool) :
    KeepsLaidOut (removeSegment start auto) := by
  unfold removeSegment
  refine preserves_update_bind fun s here room => ?_
  have now : LaidOut { s with map := (s.map.remove start auto).1 } :=
    ⟨SegmentMap.remove_laidOut here.map start auto, here.log, here.config⟩
  cases removed : (s.map.remove start auto).2 with
  | none =>
    exact ⟨now, room⟩
  | some segment =>
    refine preserves_bind (recordIf_laidOut fun user => ?_) (fun _ => ?_) _ now room
    · have side : auto = false := by simpa using user
      rw [side] at removed
      rintro t (same | nothing)
      · cases same
        exact here.map.noted removed
      · cases nothing
    · exact preserves_bind (emit_laidOut _) fun _ => preserves_pure true

theorem restoreSegment_laidOut {start : Word} {state : Option Segment}
    (noted : ∀ s, state = some s → s.start = start ∧ s.auto = false ∧ s.WellFormed) :
    KeepsLaidOut (restoreSegment start state) := by
  refine preserves_bind (updateMap_laidOut (fun s laid => ?_) fun s => ?_) fun _ => emit_laidOut _
  · have removed := SegmentMap.remove_laidOut laid start false
    cases state with
    | none => exact removed
    | some segment =>
      obtain ⟨rfl, user, wellFormed⟩ := noted segment rfl
      have new : ((s.map.remove segment.start false).1.layer segment.auto).get? segment.start =
          none := by
        rw [user]
        exact Table.get?_erase_self _ _
      cases restored : (s.map.remove segment.start false).1.restore segment with
      | error e =>
        simp only [restored]
        exact removed
      | ok map =>
        simp only [restored]
        exact SegmentMap.restore_laidOut removed wellFormed new restored
  · cases state with
    | none => exact ⟨rfl, rfl⟩
    | some segment => simp only; split <;> exact ⟨rfl, rfl⟩

theorem addSection_laidOut (section_ : Section) (auto : Bool) :
    KeepsLaidOut (addSection section_ auto) :=
  preserves_bind (updateMap_laidOut (fun _ laid => SegmentMap.addSection_laidOut laid _)
    fun _ => ⟨rfl, rfl⟩) fun _ =>
      preserves_bind (recordIf_laidOut fun _ => trivial) fun _ => emit_laidOut _

theorem removeSection_laidOut (name : String) (auto : Bool) :
    KeepsLaidOut (removeSection name auto) := by
  refine preserves_bind (updateMap_laidOut
    (fun _ laid => SegmentMap.removeSection_laidOut laid name auto) fun _ => ⟨rfl, rfl⟩)
    fun removed => ?_
  cases removed with
  | none => exact preserves_pure false
  | some section_ =>
    exact preserves_bind (recordIf_laidOut fun _ => trivial) fun _ =>
      preserves_bind (emit_laidOut _) fun _ => preserves_pure true

theorem restoreSection_laidOut (name : String) (state : Option Section) :
    KeepsLaidOut (restoreSection name state) := by
  refine preserves_bind (updateMap_laidOut (fun s laid => ?_) fun s => ?_) fun _ => emit_laidOut _
  · have removed := SegmentMap.removeSection_laidOut laid name false
    cases state with
    | none => exact removed
    | some section_ => exact SegmentMap.addSection_laidOut removed section_
  · cases state <;> exact ⟨rfl, rfl⟩

theorem defineRelocation_laidOut (range : AddressRange) : KeepsLaidOut (defineRelocation range) :=
  updateMap_laidOut (fun _ laid => SegmentMap.addRelocation_laidOut laid range)
    fun _ => ⟨rfl, rfl⟩

end Layout

section Undo

theorem inverse_wellFormed {action : UndoAction} (wellFormed : action.WellFormed) :
    (inverse action).WellFormed := by
  cases action with
  | segment start before after => exact fun s state => wellFormed s state.symm
  | _ => trivial

theorem redoAction_laidOut {action : UndoAction} (wellFormed : action.WellFormed) :
    KeepsLaidOut (redoAction action) := by
  cases plain : action.isLayout with
  | false => exact redoAction_lasts laidOut_steady plain
  | true =>
    cases action with
    | segment start before after =>
      exact restoreSegment_laidOut fun s state => wellFormed s (.inr state)
    | «section» name before after => exact restoreSection_laidOut name after
    | _ => cases plain

theorem editUndoLog_laidOut {f : UndoLog → UndoLog}
    (kept : ∀ log : UndoLog, log.Holds UndoAction.WellFormed →
      (f log).Holds UndoAction.WellFormed) :
    KeepsLaidOut (editUndoLog f) :=
  fun s here _ => ⟨⟨here.map, kept s.undoLog here.log, here.config⟩, trivial⟩

/-- To replay actions, turned or not, keeps things laid out if what is done to the log does. -/
theorem replay_laidOut (turn : UndoAction → UndoAction) {actions : List UndoAction}
    (own : ∀ a ∈ actions, (turn a).WellFormed) {before after : UndoLog → UndoLog}
    (first : ∀ log : UndoLog, log.Holds UndoAction.WellFormed →
      (before log).Holds UndoAction.WellFormed)
    (last : ∀ log : UndoLog, log.Holds UndoAction.WellFormed →
      (after log).Holds UndoAction.WellFormed) :
    KeepsLaidOut (do
      editUndoLog before
      Op.forEach (fun action => redoAction (turn action)) actions
      editUndoLog after
      pure true : Op Bool) :=
  preserves_bind (editUndoLog_laidOut first) fun _ =>
    preserves_bind (preserves_forEach_of_mem fun action member =>
      redoAction_laidOut (own action member)) fun _ =>
        preserves_bind (editUndoLog_laidOut last) fun _ => preserves_pure true

theorem undo_laidOut : KeepsLaidOut undo := by
  refine preserves_read_bind fun s here room => ?_
  split
  · exact ⟨here, room⟩
  · simp only [UndoLog.popUndo]
    cases past : s.undoLog.past with
    | nil => exact ⟨here, room⟩
    | cons entry earlier =>
      have own : ∀ action ∈ entry, action.WellFormed :=
        here.log.past entry (past ▸ List.mem_cons_self)
      have left := UndoLog.undone_holds here.log past true
      refine replay_laidOut inverse (fun action member => ?_) (fun _ _ => ?_)
        (fun log holds => ?_) s here room
      · exact inverse_wellFormed (own action (List.mem_reverse.1 member))
      · exact ⟨left.past, here.log.future, here.log.group⟩
      · refine ⟨holds.past, fun other member => ?_, holds.group⟩
        rcases List.mem_cons.1 member with rfl | later
        · exact own
        · exact holds.future other later

theorem redo_laidOut : KeepsLaidOut redo := by
  refine preserves_read_bind fun s here room => ?_
  split
  · exact ⟨here, room⟩
  · simp only [UndoLog.popRedo]
    cases future : s.undoLog.future with
    | nil => exact ⟨here, room⟩
    | cons entry later =>
      have own : ∀ action ∈ entry, action.WellFormed :=
        here.log.future entry (future ▸ List.mem_cons_self)
      have left := UndoLog.redone_holds here.log future true
      refine replay_laidOut id own (fun _ _ => ?_) (fun log holds => ?_) s here room
      · exact ⟨here.log.past, left.future, here.log.group⟩
      · refine ⟨fun other member => ?_, holds.future, holds.group⟩
        rcases List.mem_cons.1 member with rfl | earlier
        · exact own
        · exact holds.past other earlier

end Undo

end Space

namespace SpaceEdit

/-- Whether a segment that is to be added was made by the constructor of segments. -/
def WellFormed : SpaceEdit → Prop
  | addSegment segment => segment.WellFormed
  | _ => True

end SpaceEdit

namespace Space

open Op

theorem edit_laidOut {edit : SpaceEdit} (wellFormed : edit.WellFormed) :
    KeepsLaidOut edit.run := by
  cases spares : edit.sparesLayout with
  | true => exact edit_lasts laidOut_steady spares
  | false =>
    cases edit with
    | addSegment segment => exact preserves_discard (addSegment_laidOut wellFormed)
    | removeSegment start auto => exact preserves_discard (removeSegment_laidOut start auto)
    | addSection section_ auto => exact addSection_laidOut section_ auto
    | removeSection name auto => exact preserves_discard (removeSection_laidOut name auto)
    | defineRelocation range => exact preserves_discard (defineRelocation_laidOut range)
    | undo => exact preserves_discard undo_laidOut
    | redo => exact preserves_discard redo_laidOut
    | _ => cases spares

end Space

namespace Run

variable {r : Run Unit} {s : Space}

/-- The run comes to its end with a space, while those who listen make segments as they should. -/
inductive EndsWell : Run Unit → Space → Prop where
  | done {s : Space} (fits : s.Fits) : EndsWell (.done () s) s
  | told {n : Notice} {s s' last : Space} {resume : Space → Run Unit} (fits : s.Fits)
      {edits : List SpaceEdit} (wellFormed : ∀ edit ∈ edits, edit.WellFormed)
      (meanwhile : EndsWell (Op.forEach SpaceEdit.run edits s) s')
      (later : EndsWell (resume s') last) : EndsWell (.notify n s resume) last

/-- Someone can look at the space while such a run is going on, or at its end. -/
inductive ShowsWell : Run Unit → Space → Prop where
  | last {r : Run Unit} {s : Space} (ends : EndsWell r s) : ShowsWell r s
  | told {n : Notice} {s : Space} {resume : Space → Run Unit} (fits : s.Fits) :
      ShowsWell (.notify n s resume) s
  | meanwhile {n : Notice} {s seen : Space} {resume : Space → Run Unit} (fits : s.Fits)
      {edits : List SpaceEdit} (wellFormed : ∀ edit ∈ edits, edit.WellFormed)
      (shows : ShowsWell (Op.forEach SpaceEdit.run edits s) seen) :
      ShowsWell (.notify n s resume) seen
  | later {n : Notice} {s s' seen : Space} {resume : Space → Run Unit} (fits : s.Fits)
      {edits : List SpaceEdit} (wellFormed : ∀ edit ∈ edits, edit.WellFormed)
      (meanwhile : EndsWell (Op.forEach SpaceEdit.run edits s) s')
      (shows : ShowsWell (resume s') seen) : ShowsWell (.notify n s resume) seen

theorem EndsWell.ends (well : r.EndsWell s) : r.Ends s := by
  induction well with
  | done fits => exact .done fits
  | told fits _ _ _ meanwhile later => exact .told fits _ meanwhile later

theorem ShowsWell.shows (well : r.ShowsWell s) : r.Shows s := by
  induction well with
  | last ends => exact .last ends.ends
  | told fits => exact .told fits
  | meanwhile fits _ _ shows => exact .meanwhile fits _ shows
  | later fits _ meanwhile _ shows => exact .later fits _ meanwhile.ends shows

theorem edits_laidOut {edits : List SpaceEdit} (wellFormed : ∀ edit ∈ edits, edit.WellFormed) :
    Space.KeepsLaidOut (Op.forEach SpaceEdit.run edits) :=
  Op.preserves_forEach_of_mem fun edit member => Space.edit_laidOut (wellFormed edit member)

theorem EndsWell.laidOut (well : r.EndsWell s) (always : r.Always Space.LaidOut fun _ => True) :
    s.LaidOut := by
  induction well with
  | done fits => exact always.1
  | told fits wellFormed _ _ meanwhile later =>
    obtain ⟨here, on⟩ := always trivial
    exact later (on _ (meanwhile (edits_laidOut wellFormed _ here trivial)) trivial)

theorem ShowsWell.laidOut (well : r.ShowsWell s) (always : r.Always Space.LaidOut fun _ => True) :
    s.LaidOut := by
  induction well with
  | last ends => exact ends.laidOut always
  | told fits => exact (always trivial).1
  | meanwhile fits wellFormed _ ih =>
    exact ih (edits_laidOut wellFormed _ (always trivial).1 trivial)
  | later fits wellFormed meanwhile _ ih =>
    obtain ⟨here, on⟩ := always trivial
    have there := meanwhile.laidOut (edits_laidOut wellFormed _ here trivial)
    exact ih (on _ there trivial)

end Run

namespace Space

variable {s x : Space}

/-- The spaces that a program can get to without a segment that no constructor would make. -/
inductive Formed : Space → Prop where
  | built {plan : SpacePlan} {s : Space}
      (logged : ∀ storage, plan.storage = some storage → ∃ edits, PatchEdit.AllFit .empty edits ∧
        storage.log = edits.foldl PatchEdit.apply .empty)
      (parents : ∀ parent, plan.parent = some parent → Formed parent)
      (made : plan.build = .ok s) (fits : s.Fits) : Formed s
  | created {registry : ViewTypeRegistry} {name : String} {data s : Space}
      (formed : Formed data) (made : registry.create name data = .ok s) (fits : s.Fits) :
      Formed s
  /-- From the snapshot of such a space, whatever kinds of view are known. -/
  | restored {x s : Space} {savedAt : Timestamp} {registry : ViewTypeRegistry} (formed : Formed x)
      (made : (x.snapshot savedAt).restore registry = .ok s) (fits : s.Fits) : Formed s
  | edited {s seen : Space} (formed : Formed s) {edit : SpaceEdit} (wellFormed : edit.WellFormed)
      (shows : (edit.run s).ShowsWell seen) : Formed seen

theorem Formed.reachable (formed : Formed s) : Reachable s := by
  induction formed with
  | built logged _ made fits parents => exact .built logged parents made fits
  | created _ made fits reached => exact .created reached made fits
  | restored _ made fits _ => exact .restored made fits
  | edited _ _ shows reached => exact .edited reached _ shows.shows

theorem validate_of_build {plan : SpacePlan} (made : plan.build = .ok s) :
    s.config.validate = .ok () := by
  obtain ⟨storage, -, rfl⟩ := SpacePlan.build_eq_ok made
  simp only [SpacePlan.build, bind, Except.bind] at made
  split at made
  · cases made
  · assumption

theorem Formed.laidOut (formed : Formed s) : s.LaidOut := by
  induction formed with
  | built _ _ made _ _ =>
    have config := validate_of_build made
    obtain ⟨storage, -, rfl⟩ := SpacePlan.build_eq_ok made
    exact ⟨SegmentMap.empty_laidOut, UndoLog.empty_holds, config⟩
  | created _ made _ data =>
    obtain ⟨type, -, created⟩ := ViewTypeRegistry.create_eq_ok made
    obtain ⟨views, -, map⟩ := ViewType.create_eq_ok created
    refine ⟨?_, ?_, ?_⟩
    · rcases map with map | ⟨segment, id, wellFormed, added⟩
      · rw [map]
        exact SegmentMap.empty_laidOut
      · exact SegmentMap.add_laidOut SegmentMap.empty_laidOut wellFormed added
    · rw [views.undoLog]
      exact UndoLog.empty_holds
    · rw [views.config]
      exact data.config
  | restored formed made _ laid =>
    obtain ⟨view, map, opens, restored, scheduler, rfl⟩ := Snapshot.restore_eq_ok made
    refine ⟨?_, ?_, ?_⟩
    · refine ⟨?_, (Snapshot.restore_filed made).map⟩
      show SegmentMap.Sound (Snapshot.restoreSections map _)
      have same := SegmentMap.restored_map laid.map.filed restored
      have sound := laid.map.sound
      exact same ▸ ⟨sound.auto, sound.user⟩
    · show view.undoLog.Holds _
      rw [opens.undoLog]
      exact UndoLog.empty_holds
    · show view.config.validate = _
      rw [opens.config]
      exact laid.config
  | edited _ wellFormed shows laid =>
    exact shows.laidOut (edit_laidOut wellFormed _ laid trivial)

theorem formed_of_contents {contents : List UInt8}
    (made : ({ storage := some (.inMemory contents) } : SpacePlan).build = .ok s) (fits : s.Fits) :
    Formed s := by
  refine .built (fun storage own => ⟨[], trivial, ?_⟩) (fun parent above => ?_) made fits
  · cases own
    rfl
  · cases above

theorem endsWell_of_fitsQuietly {r : Run Unit} (fits : fitsQuietly r = true) :
    r.EndsWell r.collect.2.2 := by
  induction r with
  | done a s => exact .done (Storage.fits_iff.1 fits)
  | notify n s resume ih =>
    obtain ⟨here, later⟩ := Bool.and_eq_true_iff.1 fits
    have room : s.Fits := Storage.fits_iff.1 here
    exact .told room (List.forall_mem_nil _) (.done room) (ih s later)

theorem afterwards_formed (formed : Formed s) {edits : List SpaceEdit}
    (wellFormed : ∀ edit ∈ edits, edit.WellFormed) (fits : s.staysFitting edits = true) :
    Formed (s.afterwards edits) := by
  induction edits generalizing s with
  | nil => exact formed
  | cons edit rest ih =>
    obtain ⟨own, others⟩ := List.forall_mem_cons.1 wellFormed
    obtain ⟨first, later⟩ := Bool.and_eq_true_iff.1 fits
    exact ih (.edited formed own (.last (endsWell_of_fitsQuietly first))) others later

end Space

end BinaryAtlas
