import BinaryAtlas.Proofs.Mirror.Completeness
import BinaryAtlas.Proofs.Space.Delaying

/-!
All that can be asked of a space, but for beginning and ending bulk blocks themselves, is blind to
them.
-/

set_option autoImplicit false

namespace BinaryAtlas

namespace Space

open Op

variable {α : Type}

theorem editMetadata_blind (f : Metadata → Metadata) : Blind (editMetadata f) :=
  blind_modify fun _ _ => rfl

theorem editScheduler_blind (f : Scheduler → Scheduler) : Blind (editScheduler f) :=
  blind_modify fun _ _ => rfl

theorem editFunctions_blind (f : FunctionTable → FunctionTable) : Blind (editFunctions f) :=
  blind_modify fun _ _ => rfl

theorem editUndoLog_blind (f : UndoLog → UndoLog) : Blind (editUndoLog f) :=
  blind_modify fun _ _ => rfl

theorem editMap_blind (f : SegmentMap → SegmentMap) : Blind (editMap f) :=
  blind_modify fun _ _ => rfl

theorem record_blind (action : UndoAction) : Blind (record action) :=
  blind_modify fun _ _ => rfl

theorem recordIf_blind (condition : Bool) (action : UndoAction) :
    Blind (recordIf condition action) :=
  blind_ite (record_blind action) (blind_pure ())

theorem freshId_blind : Blind freshId := .update fun _ _ => rfl

section Telling

theorem tellQuietly_blind (events : List ChangeEvent) : Blind (tellQuietly events) :=
  blind_forEach .tell events

theorem emit_blind (events : List ChangeEvent) : Blind (emit events) :=
  .bind (tellQuietly_blind events) fun _ => .bind (blind_read fun _ _ => rfl) fun _ =>
    blind_ite (editScheduler_blind _) (blind_pure ())

theorem told_blind (condition : Bool) (action : UndoAction) (events : List ChangeEvent)
    (answer : α) : Blind (do recordIf condition action; emit events; pure answer : Op α) :=
  .bind (recordIf_blind _ _) fun _ => .bind (emit_blind _) fun _ => blind_pure answer

end Telling

section Bytes

theorem write_blind (a : Word) (data : List UInt8) : Blind (write a data) :=
  blind_ite (blind_pure 0) <| .bind (blind_read fun _ _ => rfl) fun _ =>
    .bind (.update fun _ _ => rfl) fun _ => blind_ite (blind_pure 0) (told_blind true _ _ _)

theorem insert_blind (a : Word) (data : List UInt8) : Blind (insert a data) :=
  blind_ite (blind_pure 0) <| .bind (.update fun _ _ => rfl) fun _ =>
    blind_ite (blind_pure 0) (told_blind true _ _ _)

theorem remove_blind (a length : Word) : Blind (remove a length) :=
  blind_ite (blind_pure 0) <| .bind (blind_read fun _ _ => rfl) fun _ =>
    .bind (.update fun _ _ => rfl) fun _ => blind_ite (blind_pure 0) (told_blind true _ _ _)

theorem share_blind (edit : StorageEdit) {event : ChangeEvent}
    (genuine : event.isAboutBytes = true) : Blind (SpaceEdit.share edit event).run :=
  .bind (blind_modify fun _ _ => rfl) fun _ => .notify (ChangeEvent.isAboutSymbol_of_bytes genuine)

end Bytes

section Records

theorem setComment_blind (a : Word) (text : String) : Blind (setComment a text) :=
  .bind (blind_read fun _ _ => rfl) fun _ => .bind (editMetadata_blind _) fun _ =>
    blind_ite (blind_pure ()) <| .bind (record_blind _) fun _ => emit_blind _

theorem storeValue_blind (key : String) (value : Json) (auto : Bool) :
    Blind (storeValue key value auto) :=
  .bind (blind_read fun _ _ => rfl) fun _ => .bind (editMetadata_blind _) fun _ =>
    blind_ite (blind_pure ()) <| .bind (recordIf_blind _ _) fun _ => emit_blind _

theorem removeValue_blind (key : String) : Blind (removeValue key) := by
  refine .bind (blind_read fun _ _ => rfl) fun before => ?_
  cases before with
  | none => exact blind_pure false
  | some value => exact .bind (editMetadata_blind _) fun _ => told_blind _ _ _ _

theorem restoreValue_blind (key : String) (state : Option Json) :
    Blind (restoreValue key state) := by
  cases state with
  | none => exact blind_discard (removeValue_blind key)
  | some value => exact storeValue_blind key value false

theorem defineVariable_blind (v : DataVariable) : Blind (defineVariable v) := by
  refine .bind (.update fun _ _ => rfl) fun outcome => .bind (recordIf_blind _ _) fun _ => ?_
  cases outcome <;> first | exact emit_blind _ | exact blind_pure ()

theorem undefineVariable_blind (a : Word) (auto : Bool) : Blind (undefineVariable a auto) := by
  refine .bind (.update fun _ _ => rfl) fun removed => ?_
  cases removed with
  | none => exact blind_pure false
  | some v => exact told_blind _ _ _ _

theorem restoreVariable_blind (a : Word) (state : Option DataVariable) :
    Blind (restoreVariable a state) :=
  .bind (blind_read fun _ _ => rfl) fun _ => .bind (editMetadata_blind _) fun _ => emit_blind _

theorem defineSymbol_blind (symbol : Symbol) : Blind (defineSymbol symbol) := by
  refine .bind (.update fun _ _ => rfl) fun outcome => .bind (recordIf_blind _ _) fun _ => ?_
  cases outcome <;> first | exact emit_blind _ | exact blind_pure ()

theorem undefineSymbol_blind (key : SymbolKey) (auto : Bool) : Blind (undefineSymbol key auto) := by
  refine .bind (.update fun _ _ => rfl) fun removed => ?_
  cases removed with
  | none => exact blind_pure false
  | some symbol => exact told_blind _ _ _ _

theorem restoreSymbol_blind (key : SymbolKey) (state : Option Symbol) :
    Blind (restoreSymbol key state) :=
  .bind (blind_read fun _ _ => rfl) fun _ => .bind (editMetadata_blind _) fun _ => emit_blind _

theorem defineType_blind (name : String) (type : DataType) (auto : Bool) :
    Blind (defineType name type auto) := by
  unfold defineType
  cases QualifiedName.parse name with
  | error e => exact blind_pure _
  | ok qualified =>
    refine .bind (blind_read fun _ _ => rfl) fun before => ?_
    cases before <;>
      first
      | refine .bind freshId_blind fun id => ?_
      | refine .bind (blind_pure _) fun id => ?_
    all_goals
      refine .bind (.update fun _ _ => rfl) fun outcome => .bind (recordIf_blind _ _) fun _ => ?_
      cases outcome with
      | added => exact .bind (emit_blind _) fun _ => blind_pure _
      | updated before =>
        exact .bind (blind_read fun _ _ => rfl) fun _ => .bind (emit_blind _) fun _ => blind_pure _
      | unchanged before => exact .bind (emit_blind _) fun _ => blind_pure _
      | ignored => exact blind_pure _

theorem undefineType_blind (name : String) (auto : Bool) : Blind (undefineType name auto) := by
  refine .bind (.update fun _ _ => rfl) fun removed => ?_
  cases removed with
  | none => exact blind_pure false
  | some record => exact .bind (blind_read fun _ _ => rfl) fun _ => told_blind _ _ _ _

theorem renameType_blind (old new : String) : Blind (renameType old new) := by
  unfold renameType
  cases QualifiedName.parse new with
  | error e => exact blind_pure _
  | ok qualified =>
    refine .bind (blind_read fun _ _ => rfl) fun types => blind_ite (blind_pure _) ?_
    cases types.get? old with
    | none => exact blind_pure _
    | some record =>
      have told : Blind (do
          emit [.typeUndefined old record.type, .typeDefined qualified.text record.type]
          pure (.ok true) : Op (Except AtlasError Bool)) :=
        .bind (emit_blind _) fun _ => blind_pure _
      exact .bind (editMetadata_blind _) fun _ =>
        blind_ite (.bind (blind_modify fun _ _ => rfl) fun _ => told) told

theorem restoreType_blind (name : String) (state : Option TypeRecord) :
    Blind (restoreType name state) := by
  refine .bind (blind_read fun _ _ => rfl) fun before => ?_
  refine .bind (editMetadata_blind _) fun _ => .bind (blind_read fun _ _ => rfl) fun _ => ?_
  cases before with
  | none => cases state <;> exact emit_blind _
  | some old =>
    cases state with
    | none => exact emit_blind _
    | some new => exact blind_ite (emit_blind _) (emit_blind _)

theorem addTagType_blind (type : TagType) : Blind (addTagType type) :=
  .bind (blind_read fun _ _ => rfl) fun _ => .bind (editMetadata_blind _) fun _ =>
    blind_ite (blind_pure ()) (emit_blind _)

theorem createTagType_blind (name icon : String) : Blind (createTagType name icon) :=
  .bind freshId_blind fun _ => .bind (addTagType_blind _) fun _ => blind_pure _

theorem removeTagType_blind (id : Uuid) : Blind (removeTagType id) := by
  refine .bind (blind_read fun _ _ => rfl) fun type => ?_
  cases type with
  | none => exact blind_pure false
  | some type =>
    exact .bind (blind_read fun _ _ => rfl) fun _ => .bind (editMetadata_blind _) fun _ =>
      .bind (emit_blind _) fun _ => blind_pure true

theorem addTag_blind (a : Word) (tag : Tag) (auto : Bool) : Blind (addTag a tag auto) := by
  refine .bind (blind_read fun _ _ => rfl) fun _ => blind_ite (blind_pure _) ?_
  refine .bind (.update fun _ _ => rfl) fun outcome => .bind (recordIf_blind _ _) fun _ => ?_
  cases outcome <;>
    first
    | exact .bind (emit_blind _) fun _ => blind_pure _
    | exact blind_pure _

theorem createTag_blind (a : Word) (type : Uuid) (data : String) (auto : Bool) :
    Blind (createTag a type data auto) := by
  refine .bind freshId_blind fun _ => .bind (addTag_blind _ _ _) fun outcome => ?_
  cases outcome <;> exact blind_pure _

theorem removeTag_blind (a : Word) (id : Uuid) (auto : Bool) : Blind (removeTag a id auto) := by
  refine .bind (.update fun _ _ => rfl) fun removed => ?_
  cases removed with
  | none => exact blind_pure false
  | some reference => exact told_blind _ _ _ _

theorem removeTags_blind (a : Word) (auto : Bool) (ids : List Uuid) :
    Blind (removeTags a auto ids) := by
  induction ids with
  | nil => exact blind_pure 0
  | cons id rest ih =>
    exact .bind (removeTag_blind a id auto) fun _ => .bind ih fun _ => blind_pure _

theorem removeTagsOfType_blind (a : Word) (type : Uuid) (auto : Bool) :
    Blind (removeTagsOfType a type auto) :=
  .bind (blind_read fun _ _ => rfl) fun _ => removeTags_blind a auto _

theorem restoreTag_blind (key : TagKey) (state : Option TagReference) :
    Blind (restoreTag key state) :=
  .bind (blind_read fun _ _ => rfl) fun _ => .bind (editMetadata_blind _) fun _ => emit_blind _

theorem updateTag_blind (id : Uuid) (data : String) : Blind (updateTag id data) :=
  .bind (blind_read fun _ _ => rfl) fun _ => .bind (editMetadata_blind _) fun _ =>
    .bind (blind_forEach (fun _ => record_blind _) _) fun _ => .bind (emit_blind _) fun _ =>
      blind_pure _

theorem addReference_blind (source target : Word) : Blind (addReference source target) :=
  .bind (blind_read fun _ _ => rfl) fun _ => blind_ite (blind_pure false) <|
    .bind (editMetadata_blind _) fun _ => .bind (record_blind _) fun _ => blind_pure true

theorem removeReference_blind (source target : Word) : Blind (removeReference source target) :=
  .bind (blind_read fun _ _ => rfl) fun _ => blind_ite (blind_pure false) <|
    .bind (editMetadata_blind _) fun _ => .bind (record_blind _) fun _ => blind_pure true

end Records

section Functions

theorem insertFunction_blind (a : Word) : Blind (insertFunction a) :=
  .bind (blind_read fun _ _ => rfl) fun _ => blind_ite (blind_pure false) <|
    .bind (.update fun _ _ => rfl) fun new =>
      blind_ite (.bind (editScheduler_blind _) fun _ => blind_pure new) (blind_pure new)

theorem addFunction_blind (a : Word) : Blind (addFunction a) :=
  .bind (insertFunction_blind a) fun new =>
    blind_ite (.bind (emit_blind _) fun _ => blind_pure new) (blind_pure new)

theorem addFoundFunction_blind (a : Word) : Blind (addFoundFunction a) :=
  .bind (insertFunction_blind a) fun _ => blind_ite (tellQuietly_blind _) (blind_pure ())

theorem createUserFunction_blind (a : Word) : Blind (createUserFunction a) := by
  have noted (event : ChangeEvent) : Blind (do
      record (.function a false true)
      editScheduler (·.noteSubmit a)
      emit [event]
      pure true) :=
    .bind (record_blind _) fun _ => .bind (editScheduler_blind _) fun _ =>
      .bind (emit_blind _) fun _ => blind_pure true
  refine .bind (blind_read fun _ _ => rfl) fun _ => blind_ite (blind_pure false) ?_
  refine .bind (blind_read fun _ _ => rfl) fun found => ?_
  cases found with
  | none => exact .bind (editFunctions_blind _) fun _ => noted (.functionAdded a)
  | some f =>
    exact blind_ite (blind_pure false) <|
      .bind (editFunctions_blind _) fun _ => noted (.functionUpdated a)

theorem removeFunction_blind (a : Word) (auto : Bool) : Blind (removeFunction a auto) := by
  refine .bind (blind_read fun _ _ => rfl) fun found => ?_
  cases found with
  | none => exact blind_pure false
  | some f =>
    exact blind_ite (blind_pure false) <| .bind (editFunctions_blind _) fun _ =>
      .bind (editMetadata_blind _) fun _ => told_blind _ _ _ _

theorem addEntryPoint_blind (a : Word) : Blind (addEntryPoint a) :=
  .bind (editFunctions_blind _) fun _ => blind_discard (addFunction_blind a)

theorem reanalyzeFunction_blind (a : Word) : Blind (reanalyzeFunction a) :=
  .bind (blind_read fun _ _ => rfl) fun _ => blind_ite (blind_pure false) <|
    .bind (editFunctions_blind _) fun _ => .bind (editScheduler_blind _) fun _ =>
      .bind (emit_blind _) fun _ => blind_pure true

end Functions

section Layout

theorem addSegment_blind (segment : Segment) : Blind (addSegment segment) := by
  refine .bind (blind_read fun _ _ => rfl) fun map => ?_
  cases map.add segment with
  | error e => exact blind_pure _
  | ok added =>
    refine .bind (editMap_blind _) fun _ => ?_
    cases added.1.byId? added.2 with
    | none => exact blind_pure _
    | some stored => exact told_blind _ _ _ _

theorem removeSegment_blind (start : Word) (auto : Bool) : Blind (removeSegment start auto) := by
  refine .bind (.update fun _ _ => rfl) fun removed => ?_
  cases removed with
  | none => exact blind_pure false
  | some segment => exact told_blind _ _ _ _

theorem restoreSegment_blind (start : Word) (state : Option Segment) :
    Blind (restoreSegment start state) := by
  refine .bind (.update fun s b => ?_) fun _ => emit_blind _
  cases state with
  | none => rfl
  | some segment =>
    dsimp only [withBulk]
    split <;> rfl

theorem addSection_blind (section_ : Section) (auto : Bool) : Blind (addSection section_ auto) :=
  .bind (.update fun _ _ => rfl) fun _ => .bind (recordIf_blind _ _) fun _ => emit_blind _

theorem removeSection_blind (name : String) (auto : Bool) : Blind (removeSection name auto) := by
  refine .bind (.update fun _ _ => rfl) fun removed => ?_
  cases removed with
  | none => exact blind_pure false
  | some section_ => exact told_blind _ _ _ _

theorem restoreSection_blind (name : String) (state : Option Section) :
    Blind (restoreSection name state) := by
  cases state <;> exact .bind (.update fun _ _ => rfl) fun _ => emit_blind _

end Layout

section Analysis

theorem complete_blind (events : List Nat) : Blind (complete events) :=
  blind_forEach (fun _ => .bind (.update fun _ _ => rfl) fun _ =>
    blind_ite (.notify rfl) (blind_pure ())) events

theorem updateFunction_blind (found : Discovery) : Blind (updateFunction found) := by
  refine .bind (blind_read fun _ _ => rfl) fun f => ?_
  cases f with
  | none => exact blind_pure false
  | some f =>
    exact .bind (editFunctions_blind _) fun _ =>
      blind_ite (.bind (tellQuietly_blind _) fun _ => blind_pure true) (blind_pure true)

theorem applyDiscovery_blind (found : Discovery) : Blind (applyDiscovery found) :=
  .bind (updateFunction_blind found) fun _ => blind_ite (.bind (editMetadata_blind _) fun _ =>
    blind_forEach addFoundFunction_blind _) (blind_pure ())

theorem exploreBatch_blind (architecture : Option Architecture) (limits : ExploreLimits)
    (batch : List Word) : Blind (exploreBatch architecture limits batch) := by
  refine .bind (blind_read fun s b => ?_) fun _ => .bind (editScheduler_blind _) fun _ =>
    blind_pure _
  have same : (s.withBulk b).ground = s.ground := rfl
  exact List.map_congr_left fun start _ => discovery_ground same architecture limits start

theorem analyzeQueue_blind (architecture : Option Architecture) (limits : ExploreLimits)
    (fuel : Nat) : Blind (analyzeQueue architecture limits fuel) := by
  induction fuel with
  | zero => exact blind_pure false
  | succ fuel ih =>
    refine .bind (.update fun _ _ => rfl) fun batch => blind_ite (blind_pure true) ?_
    refine .bind (blind_read fun _ _ => rfl) fun _ => blind_ite
      (.bind (editFunctions_blind _) fun _ => blind_pure false) ?_
    refine .bind (editScheduler_blind _) fun _ => .bind (exploreBatch_blind _ _ _) fun found => ?_
    have taken_over (discovery : Discovery) : Blind (do
        applyDiscovery discovery
        editScheduler (·.advance 1)) :=
      .bind (applyDiscovery_blind discovery) fun _ => editScheduler_blind _
    exact .bind (editScheduler_blind _) fun _ => .bind (blind_forEach taken_over found) fun _ => ih

theorem scanWindows_withBulk (s : Space) (b : SymbolBulk) (first stop overlap window : Word)
    (least most fuel : Nat) (position : Word) :
    scanWindows (s.withBulk b) first stop overlap window least most fuel position =
      scanWindows s first stop overlap window least most fuel position := by
  induction fuel generalizing position with
  | zero => rfl
  | succ fuel ih =>
    unfold scanWindows
    simp only [ih]
    rfl

theorem findStrings_blind (segments : List Segment) : Blind (findStrings segments) :=
  blind_forEach (fun _ => .bind (blind_read fun _ _ => rfl) fun _ =>
    blind_ite (.bind (blind_read fun s b => scanWindows_withBulk s b ..) fun _ =>
      .bind (blind_read fun _ _ => rfl) fun _ => .bind (editMetadata_blind _) fun _ =>
        tellQuietly_blind _) (blind_pure ())) segments

theorem analysisPass_blind : Blind analysisPass :=
  .bind (blind_read fun _ _ => rfl) fun limits => .bind (blind_read fun _ _ =>
    rfl) fun architecture => .bind (analyzeQueue_blind architecture limits batchFuel) fun _ =>
      blind_ite (.bind (blind_read fun _ _ => rfl) fun _ =>
        blind_ite (.bind (editScheduler_blind _) fun _ => .bind (blind_read fun _ _ =>
          rfl) findStrings_blind) (blind_pure ())) (blind_pure ())

theorem analysisRun_blind : Blind analysisRun :=
  .bind (editScheduler_blind _) fun _ => .bind analysisPass_blind fun _ => .bind (.update fun _ _ =>
    rfl) fun due => .bind (complete_blind due) fun _ => editScheduler_blind _

theorem runRequested_blind (fuel : Nat) : Blind (runRequested fuel) := by
  induction fuel with
  | zero => exact blind_pure ()
  | succ fuel ih =>
    exact .bind (blind_read fun _ _ => rfl) fun _ =>
      blind_ite (.bind analysisRun_blind fun _ => ih) (blind_pure ())

theorem requestAnalysis_blind : Blind requestAnalysis :=
  .bind (blind_read fun _ _ => rfl) fun _ => blind_ite (editScheduler_blind _) (blind_pure ())

theorem reanalyze_blind : Blind reanalyze :=
  .bind (blind_read fun _ _ => rfl) fun starts => .bind (editFunctions_blind _) fun _ =>
    .bind (blind_forEach (fun _ => editScheduler_blind _) starts) fun _ => requestAnalysis_blind

theorem abortAnalysis_blind : Blind abortAnalysis :=
  .bind (.update fun _ _ => rfl) fun due => complete_blind due

end Analysis

section Replaying

theorem redoAction_blind (action : UndoAction) : Blind (redoAction action) := by
  cases action with
  | write a before after => exact blind_discard (write_blind a after)
  | insert a bytes => exact blind_discard (insert_blind a bytes)
  | remove a bytes => exact blind_discard (remove_blind a _)
  | segment start before after => exact restoreSegment_blind start after
  | «section» name before after => exact restoreSection_blind name after
  | «variable» a before after => exact restoreVariable_blind a after
  | symbol key before after => exact restoreSymbol_blind key after
  | type name before after => exact restoreType_blind name after
  | comment a before after => exact setComment_blind a _
  | value key before after => exact restoreValue_blind key after
  | function a before after =>
    exact blind_ite (blind_discard (createUserFunction_blind a))
      (blind_discard (removeFunction_blind a false))
  | tag key before after => exact restoreTag_blind key after
  | reference source target before after =>
    exact blind_ite (blind_discard (addReference_blind source target))
      (blind_discard (removeReference_blind source target))

theorem undo_blind : Blind undo := by
  refine .bind (blind_read fun _ _ => rfl) fun log => blind_ite (blind_pure false) ?_
  dsimp only [UndoLog.popUndo]
  cases log.past.head? with
  | none => exact blind_pure false
  | some entry =>
    exact .bind (editUndoLog_blind _) fun _ =>
      .bind (blind_forEach (fun _ => redoAction_blind _) _) fun _ =>
        .bind (editUndoLog_blind _) fun _ => blind_pure true

theorem redo_blind : Blind redo := by
  refine .bind (blind_read fun _ _ => rfl) fun log => blind_ite (blind_pure false) ?_
  dsimp only [UndoLog.popRedo]
  cases log.future.head? with
  | none => exact blind_pure false
  | some entry =>
    exact .bind (editUndoLog_blind _) fun _ => .bind (blind_forEach redoAction_blind _) fun _ =>
      .bind (editUndoLog_blind _) fun _ => blind_pure true

end Replaying

end Space

namespace SpaceEdit

open Op Space

/-- Whether an edit begins or ends a bulk block. -/
def isBracket : SpaceEdit → Bool
  | beginBulk | endBulk => true
  | _ => false

theorem run_blind {edit : SpaceEdit} (genuine : edit.isGenuine = true)
    (inner : edit.isBracket = false) : Blind edit.run := by
  cases edit with
  | write a data => exact blind_discard (write_blind a data)
  | insert a data => exact blind_discard (insert_blind a data)
  | remove a length => exact blind_discard (remove_blind a length)
  | share edit event => exact share_blind edit genuine
  | addSegment segment => exact blind_discard (addSegment_blind segment)
  | removeSegment start auto => exact blind_discard (removeSegment_blind start auto)
  | addSection section_ auto => exact addSection_blind section_ auto
  | removeSection name auto => exact blind_discard (removeSection_blind name auto)
  | defineRelocation range => exact blind_discard (.update fun _ _ => rfl)
  | setComment a text => exact setComment_blind a text
  | storeValue key value auto => exact storeValue_blind key value auto
  | removeValue key => exact blind_discard (removeValue_blind key)
  | defineVariable v => exact defineVariable_blind v
  | undefineVariable a auto => exact blind_discard (undefineVariable_blind a auto)
  | defineSymbol symbol => exact defineSymbol_blind symbol
  | undefineSymbol key auto => exact blind_discard (undefineSymbol_blind key auto)
  | defineImport slot function =>
    exact .bind (defineSymbol_blind _) fun _ => defineSymbol_blind _
  | beginBulk => cases inner
  | endBulk => cases inner
  | defineType name type auto => exact blind_discard (defineType_blind name type auto)
  | undefineType name auto => exact blind_discard (undefineType_blind name auto)
  | renameType old new => exact blind_discard (renameType_blind old new)
  | addTagType type => exact addTagType_blind type
  | createTagType name icon => exact blind_discard (createTagType_blind name icon)
  | removeTagType id => exact blind_discard (removeTagType_blind id)
  | addTag a tag auto => exact blind_discard (addTag_blind a tag auto)
  | createTag a type data auto => exact blind_discard (createTag_blind a type data auto)
  | removeTag a id auto => exact blind_discard (removeTag_blind a id auto)
  | removeTagsOfType a type auto => exact blind_discard (removeTagsOfType_blind a type auto)
  | updateTag id data => exact blind_discard (updateTag_blind id data)
  | addReference source target => exact blind_discard (addReference_blind source target)
  | removeReference source target => exact blind_discard (removeReference_blind source target)
  | addFunction a => exact blind_discard (addFunction_blind a)
  | createUserFunction a => exact blind_discard (createUserFunction_blind a)
  | removeFunction a auto => exact blind_discard (removeFunction_blind a auto)
  | addEntryPoint a => exact addEntryPoint_blind a
  | reanalyzeFunction a => exact blind_discard (reanalyzeFunction_blind a)
  | reanalyze => exact reanalyze_blind
  | requestAnalysis => exact requestAnalysis_blind
  | abortAnalysis => exact abortAnalysis_blind
  | runRequested fuel => exact runRequested_blind fuel
  | schedule f => exact editScheduler_blind f
  | setArchitecture architecture => exact blind_modify fun _ _ => rfl
  | beginUndo => exact editUndoLog_blind _
  | commitUndo => exact blind_discard (.update fun _ _ => rfl)
  | clearUndo => exact editUndoLog_blind _
  | undo => exact blind_discard undo_blind
  | redo => exact blind_discard redo_blind
  | passIds count => exact blind_modify fun _ _ => rfl

end SpaceEdit

end BinaryAtlas
