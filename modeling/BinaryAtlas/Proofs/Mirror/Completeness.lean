import BinaryAtlas.Notifier
import BinaryAtlas.Proofs.Listing.Walking
import BinaryAtlas.Proofs.Mirror.Edits
import BinaryAtlas.Proofs.Snapshot.Restoring
import BinaryAtlas.Proofs.Space.SegmentTable

/-!
Whoever writes down what is told of a space has its tables, as long as every record is filed under
its own key. Only a snapshot that was written by hand brings records that are not.
-/

set_option autoImplicit false

namespace BinaryAtlas

namespace ChangeEvent

def isAboutBytes : ChangeEvent → Bool
  | dataWritten _ _ | dataInserted _ _ | dataRemoved _ _ => true
  | _ => false

theorem hear_bytes {event : ChangeEvent} (about : event.isAboutBytes = true) (m : Mirror) :
    m.hear event = m := by
  cases event <;> first | rfl | cases about

theorem isAboutSymbol_of_bytes {event : ChangeEvent} (about : event.isAboutBytes = true) :
    event.isAboutSymbol = false := by
  cases event <;> first | rfl | cases about

end ChangeEvent

namespace SpaceEdit

/-- What another space tells of the storage that it has in common with this one is about bytes. -/
def isGenuine : SpaceEdit → Bool
  | share _ event => event.isAboutBytes
  | _ => true

end SpaceEdit

theorem Run.Reaches.always {α : Type} {good : Space → Prop} {r : Run α}
    (reaches : r.Reaches good fun _ s => good s) : r.Always good fun _ => True := by
  induction r with
  | done a s => exact ⟨reaches, trivial⟩
  | notify n s resume ih =>
    exact fun _ => ⟨reaches.1, fun s' here _ => ih s' (reaches.2 s' here)⟩

namespace Space

open Op

variable {s : Space}

theorem share_mirrored (edit : StorageEdit) {event : ChangeEvent}
    (about : event.isAboutBytes = true) : Mirrored (SpaceEdit.share edit event).run := by
  refine mirrored_bind (mirrored_modify fun _ => ⟨rfl, rfl, rfl, rfl⟩) fun _ s keyed =>
    ⟨tells_changed (ChangeEvent.isAboutSymbol_of_bytes about) ⟨keyed, event.hear_bytes about _⟩,
      ⟨keyed, fun s' keyed' => ⟨s'.mirror, keyed', rfl⟩⟩⟩

theorem edit_mirrored {edit : SpaceEdit} (genuine : edit.isGenuine = true) : Mirrored edit.run := by
  cases edit with
  | write a data => exact mirrored_discard (write_mirrored a data)
  | insert a data => exact mirrored_discard (insert_mirrored a data)
  | remove a length => exact mirrored_discard (remove_mirrored a length)
  | share edit event => exact share_mirrored edit genuine
  | addSegment segment => exact mirrored_discard (addSegment_mirrored segment)
  | removeSegment start auto => exact mirrored_discard (removeSegment_mirrored start auto)
  | addSection section_ auto => exact addSection_mirrored section_ auto
  | removeSection name auto => exact mirrored_discard (removeSection_mirrored name auto)
  | defineRelocation range => exact mirrored_discard (defineRelocation_mirrored range)
  | setComment a text => exact setComment_mirrored a text
  | storeValue key value auto => exact storeValue_mirrored key value auto
  | removeValue key => exact mirrored_discard (removeValue_mirrored key)
  | defineVariable v => exact defineVariable_mirrored v
  | undefineVariable a auto => exact mirrored_discard (undefineVariable_mirrored a auto)
  | defineSymbol symbol => exact defineSymbol_mirrored symbol
  | undefineSymbol key auto => exact mirrored_discard (undefineSymbol_mirrored key auto)
  | defineImport slot function => exact defineImport_mirrored slot function
  | beginBulk => exact beginBulk_mirrored
  | endBulk => exact endBulk_mirrored
  | defineType name type auto => exact mirrored_discard (defineType_mirrored name type auto)
  | undefineType name auto => exact mirrored_discard (undefineType_mirrored name auto)
  | renameType old new => exact mirrored_discard (renameType_mirrored old new)
  | addTagType type => exact addTagType_mirrored type
  | createTagType name icon => exact mirrored_discard (createTagType_mirrored name icon)
  | removeTagType id => exact mirrored_discard (removeTagType_mirrored id)
  | addTag a tag auto => exact mirrored_discard (addTag_mirrored a tag auto)
  | createTag a type data auto => exact mirrored_discard (createTag_mirrored a type data auto)
  | removeTag a id auto => exact mirrored_discard (removeTag_mirrored a id auto)
  | removeTagsOfType a type auto => exact mirrored_discard (removeTagsOfType_mirrored a type auto)
  | updateTag id data => exact mirrored_discard (updateTag_mirrored id data)
  | addReference source target => exact mirrored_discard (addReference_mirrored source target)
  | removeReference source target =>
    exact mirrored_discard (removeReference_mirrored source target)
  | addFunction a => exact mirrored_discard (addFunction_mirrored a)
  | createUserFunction a => exact mirrored_discard (createUserFunction_mirrored a)
  | removeFunction a auto => exact mirrored_discard (removeFunction_mirrored a auto)
  | addEntryPoint a => exact addEntryPoint_mirrored a
  | reanalyzeFunction a => exact mirrored_discard (reanalyzeFunction_mirrored a)
  | reanalyze => exact reanalyze_mirrored
  | requestAnalysis => exact requestAnalysis_mirrored
  | abortAnalysis => exact abortAnalysis_mirrored
  | runRequested fuel => exact runRequested_mirrored fuel
  | schedule f => exact editScheduler_mirrored f
  | setArchitecture architecture => exact mirrored_modify fun _ => ⟨rfl, rfl, rfl, rfl⟩
  | beginUndo => exact beginUndo_mirrored
  | commitUndo => exact mirrored_discard commitUndo_mirrored
  | clearUndo => exact clearUndo_mirrored
  | undo => exact mirrored_discard undo_mirrored
  | redo => exact mirrored_discard redo_mirrored
  | passIds count => exact mirrored_modify fun _ => ⟨rfl, rfl, rfl, rfl⟩

section Keyed

variable {data seen : Space}

theorem metadata_empty_keyed : Metadata.empty.Keyed :=
  ⟨Table.filedBy_empty, Table.filedBy_empty, Table.filedBy_empty, Table.filedBy_empty⟩

theorem built_keyed {plan : SpacePlan} (made : plan.build = .ok s) : s.Keyed := by
  obtain ⟨storage, given, rfl⟩ := SpacePlan.build_eq_ok made
  exact ⟨SegmentMap.empty_filed, metadata_empty_keyed, UndoLog.empty_keyed⟩

theorem created_keyed {registry : ViewTypeRegistry} {name : String}
    (made : registry.create name data = .ok s) : s.Keyed := by
  obtain ⟨type, -, created⟩ := ViewTypeRegistry.create_eq_ok made
  obtain ⟨views, -, map⟩ := ViewType.create_eq_ok created
  refine ⟨?_, ?_, ?_⟩
  · rcases map with map | ⟨segment, id, -, added⟩
    · rw [map]
      exact SegmentMap.empty_filed
    · exact SegmentMap.add_filed SegmentMap.empty_filed added
  · rw [views.metadata]
    exact metadata_empty_keyed
  · rw [views.undoLog]
    exact UndoLog.empty_keyed

theorem restored_keyed {snapshot : Snapshot} {registry : ViewTypeRegistry}
    (made : snapshot.restore registry = .ok s) : s.Keyed ↔ snapshot.metadata.Keyed := by
  have filed := (Snapshot.restore_filed made).map
  obtain ⟨view, map, opens, -, scheduler, rfl⟩ := Snapshot.restore_eq_ok made
  refine ⟨Keyed.metadata, fun records => ⟨filed, records, ?_⟩⟩
  show view.undoLog.Keyed
  rw [opens.undoLog]
  exact UndoLog.empty_keyed

theorem edit_keeps_keyed (edit : SpaceEdit) : edit.run.Preserves Keyed fun _ => True := by
  have mirrored (edit : SpaceEdit) (genuine : edit.isGenuine = true) :
      edit.run.Preserves Keyed fun _ => True := fun s keyed _ =>
    ((edit_mirrored genuine s keyed).reaches.mono fun _ _ ⟨_, keyed', _⟩ => keyed').always
  cases edit with
  | share edit event =>
    exact fun s keyed _ _ =>
      ⟨⟨keyed.map, keyed.metadata, keyed.undoLog⟩, fun s' keyed' _ => ⟨keyed', trivial⟩⟩
  | _ => exact mirrored _ rfl

/-- Whatever those who listen do meanwhile, an edit leaves every record under its own key. -/
theorem edited_keyed (keyed : s.Keyed) {edit : SpaceEdit} (shows : (edit.run s).Shows seen) :
    seen.Keyed :=
  (Run.shows_good (fun _ _ => trivial) edit_keeps_keyed shows
    (edit_keeps_keyed edit s keyed trivial)).1

end Keyed

/-- Someone who knew the tables outside a bulk block and writes down what is told has them again
outside the next one, whatever has been done to the space. -/
theorem copy_keeps_up (reached : s.Reachable) (keyed : s.Keyed) (outside : s.bulk.depth = 0)
    {edits : List SpaceEdit} (genuine : ∀ edit ∈ edits, edit.isGenuine = true) :
    let run := (forEach SpaceEdit.run edits s).collect
    run.2.2.bulk.depth = 0 → s.mirror.follow run.1 = run.2.2.mirror := by
  intro run closed
  obtain ⟨filed, -⟩ := reachable_filed reached
  have mirrored : Mirrored (forEach SpaceEdit.run edits) :=
    mirrored_forEach fun edit member => edit_mirrored (genuine edit member)
  -- Nothing is kept back outside a block, neither before the run nor behind it.
  have heard : s.mirror.hearAll s.bulk.deferred = s.mirror := by
    rw [filed.bulk.closed outside]
    rfl
  obtain ⟨sound, -, same⟩ := (mirrored s keyed).tells filed.bulk s.mirror heard
  rw [sound.closed closed] at same
  exact same

theorem emptySpace_built : ({ storage := some (.inMemory [1, 2, 3, 4]) } : SpacePlan).build =
    .ok emptySpace := rfl

theorem emptySpace_reachable : Reachable emptySpace := by
  refine .built (fun storage own => ⟨[], trivial, ?_⟩) (fun parent above => ?_) emptySpace_built
    fun _ => ⟨by decide, by decide⟩
  · cases own
    rfl
  · cases above

/-- A type of tags goes with its tags, a type is renamed, symbol events are kept back for a while,
and the latest entries are taken back. -/
def manyEdits : List SpaceEdit :=
  [.addSegment ⟨0, ⟨0x10, 4⟩, 0, 4, .ofBits 7, false, []⟩,
    .addTagType ⟨.fresh 7, "t", "", true, .user⟩,
    .addTag 0x10 ⟨.fresh 8, .fresh 7, "first"⟩ false, .updateTag (.fresh 8) "second",
    .addTag 0x11 ⟨.fresh 9, .fresh 7, "other"⟩ true, .removeTagType (.fresh 7),
    .defineType "a" (.integer 4 true) false, .renameType "a" "b", .beginBulk,
    .defineSymbol ⟨.data, .none, "", "s", "s", "s", 0x10, 0, false⟩,
    .defineVariable ⟨0x10, .integer 2 false, false⟩, .endBulk, .runRequested 1, .undo, .undo, .undo]

theorem many_edits_followed :
    let run := (forEach SpaceEdit.run manyEdits emptySpace).collect
    emptySpace.mirror.follow run.1 = run.2.2.mirror ∧ run.1.length = 17 ∧
      run.2.2.mirror.types.keys = ["a"] ∧ run.2.2.mirror.map.allSegments.length = 1 :=
  ⟨copy_keeps_up emptySpace_reachable (built_keyed emptySpace_built) rfl (by decide)
    (by decide +kernel), by decide +kernel, by decide +kernel, by decide +kernel⟩

/-- One of two observers takes away every variable that is added, the other writes down what it
hears. -/
def meddling : Listening Bool (List ChangeEvent) Unit where
  react _ records event :=
    if records then .remember (· ++ [event]) .done
    else
      match event with
      | .variableAdded v =>
        .perform (SpaceEdit.undefineVariable v.address v.auto).run fun _ => .done
      | _ => .done
  complete _ memory := memory

def meddled : Unit × Space × Audience Bool (List ChangeEvent) :=
  meddling.run (SpaceEdit.defineVariable ⟨2, .integer 1 false, false⟩).run emptySpace
    ⟨⟨[(0, false), (1, true)], 2, 0⟩, []⟩

/-- A variable that is filed elsewhere is told to be removed from where it is not. Where someone
changes the space before others have heard of a change, they hear of the later one first. -/
theorem copy_falls_behind :
    (ListingCursor.misfiledSpace.Reachable ∧
      let run := ((SpaceEdit.undefineVariable 0 false).run ListingCursor.misfiledSpace).collect
      run.2.2.bulk.depth = 0 ∧ ListingCursor.misfiledSpace.mirror.follow run.1 ≠ run.2.2.mirror) ∧
    (emptySpace.Reachable ∧ meddled.2.1.bulk.depth = 0 ∧
      emptySpace.mirror.hearAll meddled.2.2.memory ≠ meddled.2.1.mirror) :=
  ⟨⟨ListingCursor.misfiledSpace_reachable, by decide +kernel, by decide +kernel⟩,
    emptySpace_reachable, by decide +kernel, by decide +kernel⟩

end Space

end BinaryAtlas
