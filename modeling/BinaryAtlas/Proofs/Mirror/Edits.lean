import BinaryAtlas.Analysis.Pass
import BinaryAtlas.Proofs.Mirror.Groups
import BinaryAtlas.Proofs.Mirror.Layout
import BinaryAtlas.Proofs.Mirror.Types
import BinaryAtlas.Space.Undo

/-!
Every edit of a space tells all that has changed in it, also where it takes an earlier one back.
-/

set_option autoImplicit false

namespace BinaryAtlas

namespace Space

open Op

theorem editScheduler_mirrored (f : Scheduler → Scheduler) : Mirrored (editScheduler f) :=
  mirrored_modify fun _ => ⟨rfl, rfl, rfl, rfl⟩

theorem editFunctions_mirrored (f : FunctionTable → FunctionTable) : Mirrored (editFunctions f) :=
  mirrored_modify fun _ => ⟨rfl, rfl, rfl, rfl⟩

/-- Something that is not copied is noted and told of. -/
theorem noted_mirrored {α : Type} (condition : Bool) {action : UndoAction}
    {events : List ChangeEvent} (own : action.Keyed)
    (silent : ∀ m : Mirror, m.hearAll events = m) (answer : α) :
    Mirrored (do recordIf condition action; emit events; pure answer : Op α) :=
  mirrored_bind (recordIf_mirrored condition own) fun _ =>
    mirrored_bind (emit_mirrored silent) fun _ => mirrored_pure answer

section Bytes

theorem write_mirrored (a : Word) (data : List UInt8) : Mirrored (write a data) :=
  mirrored_ite (mirrored_pure 0) <| mirrored_bind (mirrored_read _) fun _ =>
    mirrored_bind (mirrored_update fun _ => ⟨rfl, rfl, rfl, rfl⟩) fun count =>
      mirrored_ite (mirrored_pure 0) (noted_mirrored true (by trivial) (fun _ => rfl) count)

theorem insert_mirrored (a : Word) (data : List UInt8) : Mirrored (insert a data) :=
  mirrored_ite (mirrored_pure 0) <|
    mirrored_bind (mirrored_update fun _ => ⟨rfl, rfl, rfl, rfl⟩) fun count =>
      mirrored_ite (mirrored_pure 0) (noted_mirrored true (by trivial) (fun _ => rfl) count)

theorem remove_mirrored (a length : Word) : Mirrored (remove a length) :=
  mirrored_ite (mirrored_pure 0) <| mirrored_bind (mirrored_read _) fun _ =>
    mirrored_bind (mirrored_update fun _ => ⟨rfl, rfl, rfl, rfl⟩) fun count =>
      mirrored_ite (mirrored_pure 0) (noted_mirrored true (by trivial) (fun _ => rfl) count)

end Bytes

section Notes

theorem setComment_mirrored (a : Word) (text : String) : Mirrored (setComment a text) :=
  mirrored_bind (mirrored_read _) fun _ =>
    mirrored_bind (editMetadata_mirrored fun _ => ⟨rfl, rfl, rfl, rfl, rfl⟩) fun _ =>
      mirrored_ite (mirrored_pure ()) <|
        mirrored_bind (record_mirrored trivial) fun _ => emit_mirrored fun _ => rfl

theorem storeValue_mirrored (key : String) (value : Json) (auto : Bool) :
    Mirrored (storeValue key value auto) :=
  mirrored_bind (mirrored_read _) fun _ =>
    mirrored_bind (editMetadata_mirrored fun _ => ⟨rfl, rfl, rfl, rfl, rfl⟩) fun _ =>
      mirrored_ite (mirrored_pure ()) <|
        mirrored_bind (recordIf_mirrored _ trivial) fun _ => emit_mirrored fun _ => rfl

theorem removeValue_mirrored (key : String) : Mirrored (removeValue key) := by
  refine mirrored_bind (mirrored_read _) fun before => ?_
  cases before with
  | none => exact mirrored_pure false
  | some value =>
    exact mirrored_bind (editMetadata_mirrored fun _ => ⟨rfl, rfl, rfl, rfl, rfl⟩) fun _ =>
      noted_mirrored _ (by trivial) (fun _ => rfl) true

theorem restoreValue_mirrored (key : String) (state : Option Json) :
    Mirrored (restoreValue key state) := by
  cases state with
  | none => exact mirrored_discard (removeValue_mirrored key)
  | some value => exact storeValue_mirrored key value false

theorem addReference_mirrored (source target : Word) : Mirrored (addReference source target) :=
  mirrored_bind (mirrored_read _) fun _ => mirrored_ite (mirrored_pure false) <|
    mirrored_bind (editMetadata_mirrored fun m => m.addReference_same _ false) fun _ =>
      mirrored_bind (record_mirrored trivial) fun _ => mirrored_pure true

theorem removeReference_mirrored (source target : Word) :
    Mirrored (removeReference source target) :=
  mirrored_bind (mirrored_read _) fun _ => mirrored_ite (mirrored_pure false) <|
    mirrored_bind (editMetadata_mirrored fun m => m.removeReference_same _) fun _ =>
      mirrored_bind (record_mirrored trivial) fun _ => mirrored_pure true

theorem replaceReferences_mirrored (ranges : List AddressRange) (found : List ReferenceKey) :
    Mirrored (replaceReferences ranges found) := by
  refine editMetadata_mirrored fun m => ?_
  have removed (stale : List ReferenceKey) :
      m.SameRecords (stale.foldl (·.removeReference) m) :=
    .foldl (fun m key => m.removeReference_same key) stale m
  exact (removed _).trans (.foldl (fun m key => m.addReference_same key _) found _)

end Notes

section Functions

theorem insertFunction_mirrored (a : Word) : Mirrored (insertFunction a) := by
  refine mirrored_bind (mirrored_read _) fun _ => mirrored_ite (mirrored_pure false) ?_
  refine mirrored_bind (mirrored_update fun _ => ⟨rfl, rfl, rfl, rfl⟩) fun new => ?_
  exact mirrored_ite (mirrored_bind (editScheduler_mirrored _) fun _ => mirrored_pure new)
    (mirrored_pure new)

theorem addFunction_mirrored (a : Word) : Mirrored (addFunction a) :=
  mirrored_bind (insertFunction_mirrored a) fun new =>
    mirrored_ite (mirrored_bind (emit_mirrored fun _ => rfl) fun _ => mirrored_pure new)
      (mirrored_pure new)

theorem addFoundFunction_mirrored (a : Word) : Mirrored (addFoundFunction a) :=
  mirrored_bind (insertFunction_mirrored a) fun _ =>
    mirrored_ite (tellQuietly_mirrored fun _ => rfl) (mirrored_pure ())

theorem createUserFunction_mirrored (a : Word) : Mirrored (createUserFunction a) := by
  have noted {event : ChangeEvent} (silent : ∀ m : Mirror, m.hear event = m) : Mirrored (do
      record (.function a false true)
      editScheduler (·.noteSubmit a)
      emit [event]
      pure true) :=
    mirrored_bind (record_mirrored trivial) fun _ => mirrored_bind (editScheduler_mirrored _)
      fun _ => mirrored_bind (emit_mirrored silent) fun _ => mirrored_pure true
  refine mirrored_bind (mirrored_read _) fun _ => mirrored_ite (mirrored_pure false) ?_
  refine mirrored_bind (mirrored_read _) fun found => ?_
  cases found with
  | none => exact mirrored_bind (editFunctions_mirrored _) fun _ => noted fun _ => rfl
  | some f =>
    exact mirrored_ite (mirrored_pure false) <|
      mirrored_bind (editFunctions_mirrored _) fun _ => noted fun _ => rfl

theorem removeFunction_mirrored (a : Word) (auto : Bool) : Mirrored (removeFunction a auto) := by
  refine mirrored_bind (mirrored_read _) fun found => ?_
  cases found with
  | none => exact mirrored_pure false
  | some f =>
    exact mirrored_ite (mirrored_pure false) <| mirrored_bind (editFunctions_mirrored _) fun _ =>
      mirrored_bind (replaceReferences_mirrored _ _) fun _ =>
        noted_mirrored _ (by trivial) (fun _ => rfl) true

theorem addEntryPoint_mirrored (a : Word) : Mirrored (addEntryPoint a) :=
  mirrored_bind (editFunctions_mirrored _) fun _ => mirrored_discard (addFunction_mirrored a)

theorem reanalyzeFunction_mirrored (a : Word) : Mirrored (reanalyzeFunction a) :=
  mirrored_bind (mirrored_read _) fun _ => mirrored_ite (mirrored_pure false) <|
    mirrored_bind (editFunctions_mirrored _) fun _ => mirrored_bind (editScheduler_mirrored _)
      fun _ => mirrored_bind (emit_mirrored fun _ => rfl) fun _ => mirrored_pure true

end Functions

section Analysis

theorem complete_mirrored (events : List Nat) : Mirrored (complete events) :=
  mirrored_forEach fun event _ => mirrored_bind (mirrored_update fun _ => ⟨rfl, rfl, rfl, rfl⟩)
    fun _ => mirrored_ite (mirrored_completed event) (mirrored_pure ())

theorem updateFunction_mirrored (found : Discovery) : Mirrored (updateFunction found) := by
  refine mirrored_bind (mirrored_read _) fun known => ?_
  cases known with
  | none => exact mirrored_pure false
  | some f =>
    exact mirrored_bind (editFunctions_mirrored _) fun _ =>
      mirrored_ite (mirrored_bind (tellQuietly_mirrored fun _ => rfl) fun _ => mirrored_pure true)
        (mirrored_pure true)

theorem applyDiscovery_mirrored (found : Discovery) : Mirrored (applyDiscovery found) :=
  mirrored_bind (updateFunction_mirrored found) fun _ => mirrored_ite
    (mirrored_bind (replaceReferences_mirrored _ _) fun _ =>
      mirrored_forEach fun a _ => addFoundFunction_mirrored a) (mirrored_pure ())

theorem exploreBatch_mirrored (architecture : Option Architecture) (limits : ExploreLimits)
    (batch : List Word) : Mirrored (exploreBatch architecture limits batch) :=
  mirrored_bind (mirrored_read _) fun found => mirrored_bind (editScheduler_mirrored _) fun _ =>
    mirrored_pure found

theorem analyzeQueue_mirrored (architecture : Option Architecture) (limits : ExploreLimits)
    (fuel : Nat) : Mirrored (analyzeQueue architecture limits fuel) := by
  induction fuel with
  | zero => exact mirrored_pure false
  | succ fuel ih =>
    refine mirrored_bind (mirrored_update fun _ => ⟨rfl, rfl, rfl, rfl⟩) fun batch =>
      mirrored_ite (mirrored_pure true) ?_
    refine mirrored_bind (mirrored_read _) fun _ => mirrored_ite
      (mirrored_bind (editFunctions_mirrored _) fun _ => mirrored_pure false) ?_
    refine mirrored_bind (editScheduler_mirrored _) fun _ =>
      mirrored_bind (exploreBatch_mirrored architecture limits batch) fun found => ?_
    exact mirrored_bind (editScheduler_mirrored _) fun _ => mirrored_bind (mirrored_forEach
      fun discovery _ => mirrored_bind (applyDiscovery_mirrored discovery) fun _ =>
        editScheduler_mirrored _) fun _ => ih

theorem findStrings_mirrored (segments : List Segment) : Mirrored (findStrings segments) :=
  mirrored_forEach fun segment _ => mirrored_bind (mirrored_read _) fun _ =>
    mirrored_ite (mirrored_bind (mirrored_read _) fun found =>
      replaceStrings_mirrored (.ofLength segment.start segment.length) found) (mirrored_pure ())

theorem analysisPass_mirrored : Mirrored analysisPass := by
  refine mirrored_bind (mirrored_read _) fun limits => mirrored_bind (mirrored_read _)
    fun architecture => mirrored_bind (analyzeQueue_mirrored architecture limits batchFuel)
      fun _ => mirrored_ite ?_ (mirrored_pure ())
  exact mirrored_bind (mirrored_read _) fun _ => mirrored_ite
    (mirrored_bind (editScheduler_mirrored _) fun _ => mirrored_bind (mirrored_read _)
      findStrings_mirrored) (mirrored_pure ())

theorem analysisRun_mirrored : Mirrored analysisRun :=
  mirrored_bind (editScheduler_mirrored _) fun _ => mirrored_bind analysisPass_mirrored fun _ =>
    mirrored_bind (mirrored_update fun _ => ⟨rfl, rfl, rfl, rfl⟩) fun due =>
      mirrored_bind (complete_mirrored due) fun _ => editScheduler_mirrored _

theorem runRequested_mirrored (fuel : Nat) : Mirrored (runRequested fuel) := by
  induction fuel with
  | zero => exact mirrored_pure ()
  | succ fuel ih =>
    exact mirrored_bind (mirrored_read _) fun _ =>
      mirrored_ite (mirrored_bind analysisRun_mirrored fun _ => ih) (mirrored_pure ())

theorem requestAnalysis_mirrored : Mirrored requestAnalysis :=
  mirrored_bind (mirrored_read _) fun _ =>
    mirrored_ite (editScheduler_mirrored _) (mirrored_pure ())

theorem reanalyze_mirrored : Mirrored reanalyze :=
  mirrored_bind (mirrored_read _) fun _ => mirrored_bind (editFunctions_mirrored _) fun _ =>
    mirrored_bind (mirrored_forEach fun _ _ => editScheduler_mirrored _) fun _ =>
      requestAnalysis_mirrored

theorem abortAnalysis_mirrored : Mirrored abortAnalysis :=
  mirrored_bind (mirrored_update fun _ => ⟨rfl, rfl, rfl, rfl⟩) fun due => complete_mirrored due

end Analysis

section Undo

theorem inverse_keyed {action : UndoAction} (own : action.Keyed) : (inverse action).Keyed := by
  cases action with
  | «variable» a before after => exact fun v state => own v state.symm
  | symbol key before after => exact fun symbol state => own symbol state.symm
  | tag key before after => exact fun r state => own r state.symm
  | _ => trivial

theorem redoAction_mirrored {action : UndoAction} (own : action.Keyed) :
    Mirrored (redoAction action) := by
  cases action with
  | write a before after => exact mirrored_discard (write_mirrored a after)
  | insert a bytes => exact mirrored_discard (insert_mirrored a bytes)
  | remove a bytes => exact mirrored_discard (remove_mirrored a _)
  | segment start before after => exact restoreSegment_mirrored start after
  | «section» name before after => exact restoreSection_mirrored name after
  | «variable» a before after => exact restoreVariable_mirrored a fun v state => own v (.inr state)
  | symbol key before after =>
    exact restoreSymbol_mirrored key fun symbol state => own symbol (.inr state)
  | type name before after => exact restoreType_mirrored name after
  | comment a before after => exact setComment_mirrored a _
  | value key before after => exact restoreValue_mirrored key after
  | function a before after =>
    exact mirrored_ite (mirrored_discard (createUserFunction_mirrored a))
      (mirrored_discard (removeFunction_mirrored a false))
  | tag key before after => exact restoreTag_mirrored key fun r state => own r (.inr state)
  | reference source target before after =>
    exact mirrored_ite (mirrored_discard (addReference_mirrored source target))
      (mirrored_discard (removeReference_mirrored source target))

theorem editUndoLog_mirrored {f : UndoLog → UndoLog} (kept : ∀ log, log.Keyed → (f log).Keyed) :
    Mirrored (editUndoLog f) :=
  fun s keyed => leads_modify rfl ⟨⟨keyed.map, keyed.metadata, kept s.undoLog keyed.undoLog⟩, rfl⟩

theorem beginUndo_mirrored : Mirrored beginUndo :=
  editUndoLog_mirrored fun _ keyed => ⟨keyed.group, keyed.past, keyed.future⟩

theorem commitUndo_mirrored : Mirrored commitUndo :=
  fun _ keyed => leads_update rfl
    ⟨⟨keyed.map, keyed.metadata, UndoLog.commit_keyed keyed.undoLog⟩, rfl⟩

theorem clearUndo_mirrored : Mirrored clearUndo :=
  editUndoLog_mirrored fun log _ => UndoLog.clear_keyed log

theorem undo_mirrored : Mirrored undo := by
  intro s keyed
  refine leads_read_bind ?_
  split
  · exact leads_pure ⟨keyed, rfl⟩
  · simp only [UndoLog.popUndo]
    cases past : s.undoLog.past with
    | nil => exact leads_pure ⟨keyed, rfl⟩
    | cons entry older =>
      have log := keyed.undoLog
      have own : ∀ action ∈ entry, action.Keyed :=
        log.past entry (past ▸ List.mem_cons_self)
      refine mirrored_bind (editUndoLog_mirrored fun _ _ => ?_) (fun _ =>
        mirrored_bind (mirrored_forEach fun action member => ?_) fun _ =>
          mirrored_bind (editUndoLog_mirrored fun log keyed => ?_) fun _ => mirrored_pure true)
        s keyed
      · exact ⟨log.group, fun entry member => log.past entry (past ▸ List.mem_cons_of_mem _ member),
          log.future⟩
      · exact redoAction_mirrored (inverse_keyed (own action (List.mem_reverse.1 member)))
      · refine ⟨keyed.group, keyed.past, fun other member => ?_⟩
        rcases List.mem_cons.1 member with rfl | older
        · exact own
        · exact keyed.future other older

theorem redo_mirrored : Mirrored redo := by
  intro s keyed
  refine leads_read_bind ?_
  split
  · exact leads_pure ⟨keyed, rfl⟩
  · simp only [UndoLog.popRedo]
    cases future : s.undoLog.future with
    | nil => exact leads_pure ⟨keyed, rfl⟩
    | cons entry newer =>
      have log := keyed.undoLog
      have own : ∀ action ∈ entry, action.Keyed :=
        log.future entry (future ▸ List.mem_cons_self)
      refine mirrored_bind (editUndoLog_mirrored fun _ _ => ?_) (fun _ =>
        mirrored_bind (mirrored_forEach fun action member => ?_) fun _ =>
          mirrored_bind (editUndoLog_mirrored fun log keyed => ?_) fun _ => mirrored_pure true)
        s keyed
      · exact ⟨log.group, log.past,
          fun entry member => log.future entry (future ▸ List.mem_cons_of_mem _ member)⟩
      · exact redoAction_mirrored (own action member)
      · refine ⟨keyed.group, fun other member => ?_, keyed.future⟩
        rcases List.mem_cons.1 member with rfl | older
        · exact own
        · exact keyed.past other older

end Undo

end Space

end BinaryAtlas
