import BinaryAtlas.Proofs.References.Indexing
import BinaryAtlas.Proofs.Space.Always
import BinaryAtlas.Proofs.Space.Replaying
import BinaryAtlas.Proofs.Space.Reaching

/-!
What only depends on the layout of a space, its settings and its undo log outlasts every operation
that is about something else: bytes, records, functions and analysis. So does the index of
references, which those that change references keep up.
-/

set_option autoImplicit false

namespace BinaryAtlas

namespace UndoAction

def isLayout : UndoAction → Bool
  | segment _ _ _ | .section _ _ _ => true
  | _ => false

end UndoAction

namespace UndoLog

/-- All that the second log notes of the layout is in the first one as well. -/
def Broadens (log log' : UndoLog) : Prop :=
  ∀ kind : UndoAction → Prop, (∀ action, action.isLayout = false → kind action) →
    log.Holds kind → log'.Holds kind

variable {log log' log'' : UndoLog}

theorem Broadens.refl (log : UndoLog) : log.Broadens log := fun _ _ holds => holds

theorem Broadens.trans (first : log.Broadens log') (second : log'.Broadens log'') :
    log.Broadens log'' :=
  fun kind plain holds => second kind plain (first kind plain holds)

theorem Broadens.record {action : UndoAction} (plain : action.isLayout = false) :
    log.Broadens (log.record action) :=
  fun _ others holds => record_holds holds (others action plain)

theorem Broadens.begin (log : UndoLog) : log.Broadens log.begin :=
  fun _ _ holds => ⟨holds.past, holds.future, holds.group⟩

theorem Broadens.commit (log : UndoLog) : log.Broadens log.commit.1 := by
  intro kind _ holds
  unfold UndoLog.commit
  split
  · exact holds
  · split
    · exact ⟨holds.past, holds.future, holds.group⟩
    · refine ⟨fun entry member => ?_, holds.future, fun _ member => (List.not_mem_nil member).elim⟩
      rcases List.mem_cons.1 member with rfl | earlier
      · exact holds.group
      · exact holds.past entry earlier
  · exact ⟨holds.past, holds.future, holds.group⟩

theorem Broadens.clear (log : UndoLog) : log.Broadens log.clear :=
  fun _ _ _ => ⟨fun _ member => (List.not_mem_nil member).elim,
    fun _ member => (List.not_mem_nil member).elim, fun _ member => (List.not_mem_nil member).elim⟩

end UndoLog

namespace Space

open Op

/-- A property of the layout and the settings of a space, of what its log notes of the layout and of
whether references are indexed. -/
structure Steady (good : Space → Prop) : Prop where
  elsewhere : ∀ {s s' : Space}, good s → s'.map = s.map → s'.config = s.config →
    s.undoLog.Broadens s'.undoLog → (s.metadata.Indexed → s'.metadata.Indexed) → good s'

abbrev Lasts {α : Type} (good : Space → Prop) (op : Op α) : Prop :=
  op.Preserves good fun _ => True

variable {α : Type} {good : Space → Prop} (steady : Steady good)
include steady

theorem update_lasts {f : Space → Space × α}
    (same : ∀ s, (f s).1.map = s.map ∧ (f s).1.config = s.config ∧ (f s).1.undoLog = s.undoLog ∧
      (s.metadata.Indexed → (f s).1.metadata.Indexed)) :
    Lasts good (update f) := by
  refine preserves_update fun s here _ => ?_
  obtain ⟨map, config, log, indexed⟩ := same s
  exact ⟨steady.elsewhere here map config (log ▸ UndoLog.Broadens.refl _) indexed, trivial⟩

theorem modify_lasts {f : Space → Space}
    (same : ∀ s, (f s).map = s.map ∧ (f s).config = s.config ∧ (f s).undoLog = s.undoLog ∧
      (s.metadata.Indexed → (f s).metadata.Indexed)) :
    Lasts good (modify f) :=
  update_lasts (f := fun s => (f s, ())) steady same

theorem editUndoLog_lasts {f : UndoLog → UndoLog}
    (broadens : ∀ log : UndoLog, log.Broadens (f log)) : Lasts good (editUndoLog f) :=
  fun s here _ => ⟨steady.elsewhere here rfl rfl (broadens s.undoLog) id, trivial⟩

theorem editMetadata_lasts {f : Metadata → Metadata}
    (indexed : ∀ m : Metadata, m.Indexed → (f m).Indexed) : Lasts good (editMetadata f) :=
  modify_lasts steady fun s => ⟨rfl, rfl, rfl, indexed s.metadata⟩

/-- Other records than references. -/
theorem editRecords_lasts {f : Metadata → Metadata}
    (same : ∀ m : Metadata, (f m).outgoing = m.outgoing ∧ (f m).incoming = m.incoming) :
    Lasts good (editMetadata f) :=
  editMetadata_lasts steady fun m indexed => indexed.of_same (same m).1 (same m).2

theorem editScheduler_lasts (f : Scheduler → Scheduler) : Lasts good (editScheduler f) :=
  modify_lasts steady fun _ => ⟨rfl, rfl, rfl, id⟩

theorem editFunctions_lasts (f : FunctionTable → FunctionTable) : Lasts good (editFunctions f) :=
  modify_lasts steady fun _ => ⟨rfl, rfl, rfl, id⟩

theorem record_lasts {action : UndoAction} (plain : action.isLayout = false) :
    Lasts good (record action) :=
  editUndoLog_lasts steady fun _ => .record plain

theorem recordIf_lasts (condition : Bool) {action : UndoAction} (plain : action.isLayout = false) :
    Lasts good (recordIf condition action) :=
  preserves_ite (record_lasts steady plain) (preserves_pure ())

theorem freshId_lasts : Lasts good freshId := update_lasts steady fun _ => ⟨rfl, rfl, rfl, id⟩

section Telling

theorem tell_lasts (event : ChangeEvent) : Lasts good (tell event) :=
  preserves_bind (preserves_bind (preserves_read _) fun _ => preserves_pure _) fun _ =>
    preserves_ite (modify_lasts steady fun _ => ⟨rfl, rfl, rfl, id⟩) (preserves_notify _)

theorem tellQuietly_lasts (events : List ChangeEvent) : Lasts good (tellQuietly events) :=
  preserves_forEach (tell_lasts steady) events

theorem emit_lasts (events : List ChangeEvent) : Lasts good (emit events) :=
  preserves_bind (tellQuietly_lasts steady events) fun _ => preserves_bind (preserves_read _)
    fun _ => preserves_ite (editScheduler_lasts steady _) (preserves_pure ())

theorem told_lasts (condition : Bool) {action : UndoAction} (plain : action.isLayout = false)
    (events : List ChangeEvent) (answer : α) :
    Lasts good (do recordIf condition action; emit events; pure answer : Op α) :=
  preserves_bind (recordIf_lasts steady _ plain) fun _ =>
    preserves_bind (emit_lasts steady _) fun _ => preserves_pure answer

theorem beginBulk_lasts : Lasts good beginBulk := modify_lasts steady fun _ => ⟨rfl, rfl, rfl, id⟩

theorem endBulk_lasts : Lasts good endBulk := by
  refine preserves_bind (preserves_read _) fun depth => ?_
  match depth with
  | 0 => exact preserves_pure ()
  | 1 =>
    exact preserves_bind (preserves_read _) fun _ => preserves_bind
      (modify_lasts steady fun _ => ⟨rfl, rfl, rfl, id⟩) fun _ =>
        preserves_forEach (fun _ => preserves_notify _) _
  | depth + 2 => exact modify_lasts steady fun _ => ⟨rfl, rfl, rfl, id⟩

end Telling

section Bytes

theorem write_lasts (a : Word) (data : List UInt8) : Lasts good (write a data) :=
  preserves_ite (preserves_pure 0) <| preserves_bind (preserves_read _) fun _ =>
    preserves_bind (update_lasts steady fun _ => ⟨rfl, rfl, rfl, id⟩) fun _ =>
      preserves_ite (preserves_pure 0) <| preserves_bind (record_lasts steady rfl) fun _ =>
        preserves_bind (emit_lasts steady _) fun _ => preserves_pure _

theorem insert_lasts (a : Word) (data : List UInt8) : Lasts good (insert a data) :=
  preserves_ite (preserves_pure 0) <|
    preserves_bind (update_lasts steady fun _ => ⟨rfl, rfl, rfl, id⟩) fun _ =>
      preserves_ite (preserves_pure 0) <| preserves_bind (record_lasts steady rfl) fun _ =>
        preserves_bind (emit_lasts steady _) fun _ => preserves_pure _

theorem remove_lasts (a length : Word) : Lasts good (remove a length) :=
  preserves_ite (preserves_pure 0) <| preserves_bind (preserves_read _) fun _ =>
    preserves_bind (update_lasts steady fun _ => ⟨rfl, rfl, rfl, id⟩) fun _ =>
      preserves_ite (preserves_pure 0) <| preserves_bind (record_lasts steady rfl) fun _ =>
        preserves_bind (emit_lasts steady _) fun _ => preserves_pure _

theorem share_lasts (edit : StorageEdit) (event : ChangeEvent) :
    Lasts good (SpaceEdit.share edit event).run :=
  preserves_bind (modify_lasts steady fun _ => ⟨rfl, rfl, rfl, id⟩) fun _ => preserves_notify _

end Bytes

section Records

theorem setComment_lasts (a : Word) (text : String) : Lasts good (setComment a text) :=
  preserves_bind (preserves_read _) fun _ =>
    preserves_bind (editRecords_lasts steady fun _ => ⟨rfl, rfl⟩) fun _ =>
      preserves_ite (preserves_pure ()) <| preserves_bind (record_lasts steady rfl) fun _ =>
        emit_lasts steady _

theorem storeValue_lasts (key : String) (value : Json) (auto : Bool) :
    Lasts good (storeValue key value auto) :=
  preserves_bind (preserves_read _) fun _ =>
    preserves_bind (editRecords_lasts steady fun _ => ⟨rfl, rfl⟩) fun _ =>
      preserves_ite (preserves_pure ()) <| preserves_bind (recordIf_lasts steady _ rfl) fun _ =>
        emit_lasts steady _

theorem removeValue_lasts (key : String) : Lasts good (removeValue key) := by
  refine preserves_bind (preserves_read _) fun before => ?_
  cases before with
  | none => exact preserves_pure false
  | some value =>
    exact preserves_bind (editRecords_lasts steady fun _ => ⟨rfl, rfl⟩) fun _ =>
      told_lasts steady _ rfl _ _

theorem restoreValue_lasts (key : String) (state : Option Json) :
    Lasts good (restoreValue key state) := by
  cases state with
  | none => exact preserves_discard (removeValue_lasts steady key)
  | some value => exact storeValue_lasts steady key value false

theorem defineVariable_lasts (v : DataVariable) : Lasts good (defineVariable v) := by
  refine preserves_bind (update_lasts steady fun _ => ⟨rfl, rfl, rfl, id⟩)
    fun outcome => preserves_bind (recordIf_lasts steady _ rfl) fun _ => ?_
  cases outcome <;> first | exact emit_lasts steady _ | exact preserves_pure ()

theorem undefineVariable_lasts (a : Word) (auto : Bool) :
    Lasts good (undefineVariable a auto) := by
  refine preserves_bind (update_lasts steady fun _ => ⟨rfl, rfl, rfl, id⟩)
    fun removed => ?_
  cases removed with
  | none => exact preserves_pure false
  | some v => exact told_lasts steady _ rfl _ _

theorem restoreVariable_lasts (a : Word) (state : Option DataVariable) :
    Lasts good (restoreVariable a state) :=
  preserves_bind (preserves_read _) fun _ =>
    preserves_bind (editRecords_lasts steady fun _ => ⟨rfl, rfl⟩) fun _ => emit_lasts steady _

theorem defineSymbol_lasts (symbol : Symbol) : Lasts good (defineSymbol symbol) := by
  refine preserves_bind (update_lasts steady fun _ => ⟨rfl, rfl, rfl, id⟩)
    fun outcome => preserves_bind (recordIf_lasts steady _ rfl) fun _ => ?_
  cases outcome <;> first | exact emit_lasts steady _ | exact preserves_pure ()

theorem undefineSymbol_lasts (key : SymbolKey) (auto : Bool) :
    Lasts good (undefineSymbol key auto) := by
  refine preserves_bind (update_lasts steady fun _ => ⟨rfl, rfl, rfl, id⟩)
    fun removed => ?_
  cases removed with
  | none => exact preserves_pure false
  | some symbol => exact told_lasts steady _ rfl _ _

theorem restoreSymbol_lasts (key : SymbolKey) (state : Option Symbol) :
    Lasts good (restoreSymbol key state) :=
  preserves_bind (preserves_read _) fun _ =>
    preserves_bind (editRecords_lasts steady fun _ => ⟨rfl, rfl⟩) fun _ => emit_lasts steady _

theorem definedType_lasts (name : String) (type : DataType) (auto : Bool) (id : Uuid) :
    Lasts good (do
      let record : TypeRecord := ⟨id, type, auto⟩
      let outcome ← Op.update fun s =>
        let (types, outcome) := s.metadata.types.define name record
        ({ s with metadata := { s.metadata with types := types } }, outcome)
      recordIf (!auto && !outcome.isIgnored) (.type name outcome.before? (some record))
      match outcome with
      | .added => emit [.typeDefined name type]
      | .updated _ =>
        emit (.typeDefined name type ::
          (← Op.read fun s => TypeLibrary.mentionEvents s.metadata name))
      | .unchanged _ => emit []
      | .ignored => pure ()
      pure (.ok id) : Op (Except AtlasError Uuid)) := by
  refine preserves_bind (update_lasts steady fun _ => ⟨rfl, rfl, rfl, fun here => here⟩)
    fun outcome => preserves_bind (recordIf_lasts steady _ rfl) fun _ => ?_
  cases outcome with
  | added => exact preserves_bind (emit_lasts steady _) fun _ => preserves_pure _
  | updated before =>
    exact preserves_bind (preserves_read _) fun _ =>
      preserves_bind (emit_lasts steady _) fun _ => preserves_pure _
  | unchanged before => exact preserves_bind (emit_lasts steady _) fun _ => preserves_pure _
  | ignored => exact preserves_pure _

theorem defineType_lasts (name : String) (type : DataType) (auto : Bool) :
    Lasts good (defineType name type auto) := by
  unfold defineType
  cases QualifiedName.parse name with
  | error e => exact preserves_pure _
  | ok qualified =>
    refine preserves_bind (preserves_read _) fun before => ?_
    cases before
    · refine preserves_bind (freshId_lasts steady) ?_
      exact definedType_lasts steady qualified.text type auto
    · refine preserves_bind (preserves_pure _) ?_
      exact definedType_lasts steady qualified.text type auto

theorem undefineType_lasts (name : String) (auto : Bool) : Lasts good (undefineType name auto) := by
  refine preserves_bind (update_lasts steady fun _ => ⟨rfl, rfl, rfl, id⟩)
    fun removed => ?_
  cases removed with
  | none => exact preserves_pure false
  | some record => exact preserves_bind (preserves_read _) fun _ => told_lasts steady _ rfl _ _

theorem renameType_lasts (old new : String) : Lasts good (renameType old new) := by
  unfold renameType
  cases QualifiedName.parse new with
  | error e => exact preserves_pure _
  | ok qualified =>
    refine preserves_bind (preserves_read _) fun types =>
      preserves_ite (preserves_pure _) ?_
    cases types.get? old with
    | none => exact preserves_pure _
    | some record =>
      have told : Lasts good (do
          emit [.typeUndefined old record.type, .typeDefined qualified.text record.type]
          pure (.ok true) : Op (Except AtlasError Bool)) :=
        preserves_bind (emit_lasts steady _) fun _ => preserves_pure _
      refine preserves_bind (editRecords_lasts steady fun _ => ⟨rfl, rfl⟩) fun _ => preserves_ite
        (preserves_bind (fun s here _ => ⟨steady.elsewhere here rfl rfl ?_ id, trivial⟩)
          fun _ => told) told
      exact (((UndoLog.Broadens.begin s.undoLog).trans (.record rfl)).trans (.record rfl)).trans
        (.commit _)

theorem restoreType_lasts (name : String) (state : Option TypeRecord) :
    Lasts good (restoreType name state) := by
  refine preserves_bind (preserves_read _) fun before => ?_
  refine preserves_bind (editRecords_lasts steady fun _ => ⟨rfl, rfl⟩) fun _ =>
    preserves_bind (preserves_read _) fun _ => ?_
  cases before with
  | none => cases state <;> exact emit_lasts steady _
  | some old =>
    cases state with
    | none => exact emit_lasts steady _
    | some new => exact preserves_ite (emit_lasts steady _) (emit_lasts steady _)

theorem addTagType_lasts (type : TagType) : Lasts good (addTagType type) :=
  preserves_bind (preserves_read _) fun _ =>
    preserves_bind (editRecords_lasts steady fun _ => ⟨rfl, rfl⟩) fun _ =>
      preserves_ite (preserves_pure ()) (emit_lasts steady _)

theorem createTagType_lasts (name icon : String) : Lasts good (createTagType name icon) :=
  preserves_bind (freshId_lasts steady) fun _ => preserves_bind (addTagType_lasts steady _) fun _ =>
    preserves_pure _

theorem removeTagType_lasts (id : Uuid) : Lasts good (removeTagType id) := by
  refine preserves_bind (preserves_read _) fun type => ?_
  cases type with
  | none => exact preserves_pure false
  | some type =>
    exact preserves_bind (preserves_read _) fun _ =>
      preserves_bind (editRecords_lasts steady fun _ => ⟨rfl, rfl⟩) fun _ =>
        preserves_bind (emit_lasts steady _) fun _ => preserves_pure true

theorem addTag_lasts (a : Word) (tag : Tag) (auto : Bool) : Lasts good (addTag a tag auto) := by
  refine preserves_bind (preserves_read _) fun _ => preserves_ite (preserves_pure _) ?_
  refine preserves_bind (update_lasts steady fun _ => ⟨rfl, rfl, rfl, id⟩)
    fun outcome => preserves_bind (recordIf_lasts steady _ rfl) fun _ => ?_
  cases outcome <;>
    first
    | exact preserves_bind (emit_lasts steady _) fun _ => preserves_pure _
    | exact preserves_pure _

theorem createTag_lasts (a : Word) (type : Uuid) (data : String) (auto : Bool) :
    Lasts good (createTag a type data auto) := by
  refine preserves_bind (freshId_lasts steady) fun _ =>
    preserves_bind (addTag_lasts steady _ _ _) fun outcome => ?_
  cases outcome <;> exact preserves_pure _

theorem removeTag_lasts (a : Word) (id : Uuid) (auto : Bool) :
    Lasts good (removeTag a id auto) := by
  refine preserves_bind (update_lasts steady fun _ => ⟨rfl, rfl, rfl, fun here => here⟩)
    fun removed => ?_
  cases removed with
  | none => exact preserves_pure false
  | some reference => exact told_lasts steady _ rfl _ _

theorem removeTags_lasts (a : Word) (auto : Bool) (ids : List Uuid) :
    Lasts good (removeTags a auto ids) := by
  induction ids with
  | nil => exact preserves_pure 0
  | cons id rest ih =>
    exact preserves_bind (removeTag_lasts steady a id auto) fun _ => preserves_bind ih fun _ =>
      preserves_pure _

theorem removeTagsOfType_lasts (a : Word) (type : Uuid) (auto : Bool) :
    Lasts good (removeTagsOfType a type auto) :=
  preserves_bind (preserves_read _) fun _ => removeTags_lasts steady a auto _

theorem restoreTag_lasts (key : TagKey) (state : Option TagReference) :
    Lasts good (restoreTag key state) :=
  preserves_bind (preserves_read _) fun _ =>
    preserves_bind (editRecords_lasts steady fun _ => ⟨rfl, rfl⟩) fun _ => emit_lasts steady _

theorem updateTag_lasts (id : Uuid) (data : String) : Lasts good (updateTag id data) :=
  preserves_bind (preserves_read _) fun _ =>
    preserves_bind (editRecords_lasts steady fun _ => ⟨rfl, rfl⟩) fun _ =>
      preserves_bind (preserves_forEach (fun _ => record_lasts steady rfl) _) fun _ =>
        preserves_bind (emit_lasts steady _) fun _ => preserves_pure _

theorem addReference_lasts (source target : Word) : Lasts good (addReference source target) :=
  preserves_bind (preserves_read _) fun _ => preserves_ite (preserves_pure false) <|
    preserves_bind (editMetadata_lasts steady fun _ indexed =>
      Metadata.addReference_indexed indexed _ _) fun _ =>
        preserves_bind (record_lasts steady rfl) fun _ => preserves_pure true

theorem removeReference_lasts (source target : Word) :
    Lasts good (removeReference source target) :=
  preserves_bind (preserves_read _) fun _ => preserves_ite (preserves_pure false) <|
    preserves_bind (editMetadata_lasts steady fun _ indexed =>
      Metadata.removeReference_indexed indexed _) fun _ =>
        preserves_bind (record_lasts steady rfl) fun _ => preserves_pure true

theorem replaceReferences_lasts (ranges : List AddressRange) (found : List ReferenceKey) :
    Lasts good (replaceReferences ranges found) :=
  editMetadata_lasts steady fun _ indexed => Metadata.renewReferences_indexed indexed ranges found

end Records

section Functions

theorem insertFunction_lasts (a : Word) : Lasts good (insertFunction a) :=
  preserves_bind (preserves_read _) fun _ => preserves_ite (preserves_pure false) <|
    preserves_bind (update_lasts steady fun _ => ⟨rfl, rfl, rfl, id⟩) fun new =>
      preserves_ite (preserves_bind (editScheduler_lasts steady _) fun _ => preserves_pure new)
        (preserves_pure new)

theorem addFunction_lasts (a : Word) : Lasts good (addFunction a) :=
  preserves_bind (insertFunction_lasts steady a) fun new =>
    preserves_ite (preserves_bind (emit_lasts steady _) fun _ => preserves_pure new)
      (preserves_pure new)

theorem addFoundFunction_lasts (a : Word) : Lasts good (addFoundFunction a) :=
  preserves_bind (insertFunction_lasts steady a) fun _ =>
    preserves_ite (tellQuietly_lasts steady _) (preserves_pure ())

theorem createUserFunction_lasts (a : Word) : Lasts good (createUserFunction a) := by
  have noted (event : ChangeEvent) : Lasts good (do
      record (.function a false true)
      editScheduler (·.noteSubmit a)
      emit [event]
      pure true) :=
    preserves_bind (record_lasts steady rfl) fun _ =>
      preserves_bind (editScheduler_lasts steady _) fun _ =>
        preserves_bind (emit_lasts steady _) fun _ => preserves_pure true
  refine preserves_bind (preserves_read _) fun _ => preserves_ite (preserves_pure false) ?_
  refine preserves_bind (preserves_read _) fun found => ?_
  cases found with
  | none => exact preserves_bind (editFunctions_lasts steady _) fun _ => noted (.functionAdded a)
  | some f =>
    exact preserves_ite (preserves_pure false) <|
      preserves_bind (editFunctions_lasts steady _) fun _ => noted (.functionUpdated a)

theorem removeFunction_lasts (a : Word) (auto : Bool) : Lasts good (removeFunction a auto) := by
  refine preserves_bind (preserves_read _) fun found => ?_
  cases found with
  | none => exact preserves_pure false
  | some f =>
    exact preserves_ite (preserves_pure false) <|
      preserves_bind (editFunctions_lasts steady _) fun _ =>
        preserves_bind (replaceReferences_lasts steady _ _) fun _ => told_lasts steady _ rfl _ _

theorem addEntryPoint_lasts (a : Word) : Lasts good (addEntryPoint a) :=
  preserves_bind (editFunctions_lasts steady _) fun _ =>
    preserves_discard (addFunction_lasts steady a)

theorem reanalyzeFunction_lasts (a : Word) : Lasts good (reanalyzeFunction a) :=
  preserves_bind (preserves_read _) fun _ => preserves_ite (preserves_pure false) <|
    preserves_bind (editFunctions_lasts steady _) fun _ =>
      preserves_bind (editScheduler_lasts steady _) fun _ =>
        preserves_bind (emit_lasts steady _) fun _ => preserves_pure true

end Functions

section Analysis

theorem complete_lasts (events : List Nat) : Lasts good (complete events) :=
  preserves_forEach (fun _ => preserves_bind (update_lasts steady fun _ => ⟨rfl, rfl, rfl, id⟩)
    fun _ => preserves_ite (preserves_notify _) (preserves_pure ())) events

theorem updateFunction_lasts (found : Discovery) : Lasts good (updateFunction found) := by
  refine preserves_bind (preserves_read _) fun f => ?_
  cases f with
  | none => exact preserves_pure false
  | some f =>
    exact preserves_bind (editFunctions_lasts steady _) fun _ =>
      preserves_ite (preserves_bind (tellQuietly_lasts steady _) fun _ => preserves_pure true)
        (preserves_pure true)

theorem applyDiscovery_lasts (found : Discovery) : Lasts good (applyDiscovery found) :=
  preserves_bind (updateFunction_lasts steady found) fun _ => preserves_ite
    (preserves_bind (replaceReferences_lasts steady _ _) fun _ =>
      preserves_forEach (addFoundFunction_lasts steady) _) (preserves_pure ())

theorem analyzeQueue_lasts (architecture : Option Architecture) (limits : ExploreLimits)
    (fuel : Nat) : Lasts good (analyzeQueue architecture limits fuel) := by
  induction fuel with
  | zero => exact preserves_pure false
  | succ fuel ih =>
    refine preserves_bind (update_lasts steady fun _ => ⟨rfl, rfl, rfl, id⟩) fun batch =>
      preserves_ite (preserves_pure true) ?_
    refine preserves_bind (preserves_read _) fun _ => preserves_ite
      (preserves_bind (editFunctions_lasts steady _) fun _ => preserves_pure false) ?_
    refine preserves_bind (editScheduler_lasts steady _) fun _ => preserves_bind
      (preserves_bind (preserves_read _) fun _ =>
        preserves_bind (editScheduler_lasts steady _) fun _ => preserves_pure _) fun found => ?_
    refine preserves_bind (editScheduler_lasts steady _) fun _ => preserves_bind
      (preserves_forEach (fun discovery =>
        preserves_bind (applyDiscovery_lasts steady discovery) fun _ =>
          editScheduler_lasts steady _) found) fun _ => ih

theorem replaceStrings_lasts (range : AddressRange) (found : List StringReference) :
    Lasts good (replaceStrings range found) := by
  unfold replaceStrings
  refine preserves_bind (preserves_read _) fun known => ?_
  refine preserves_bind (editRecords_lasts steady ?_) fun _ => tellQuietly_lasts steady _
  exact fun _ => ⟨rfl, rfl⟩

theorem findStrings_lasts (segments : List Segment) : Lasts good (findStrings segments) :=
  preserves_forEach (fun _ => preserves_bind (preserves_read _) fun _ => preserves_ite
    (preserves_bind (preserves_read _) fun _ => replaceStrings_lasts steady _ _)
    (preserves_pure ())) segments

theorem analysisPass_lasts : Lasts good analysisPass :=
  preserves_bind (preserves_read _) fun limits => preserves_bind (preserves_read _)
    fun architecture => preserves_bind (analyzeQueue_lasts steady architecture limits batchFuel)
      fun _ => preserves_ite
        (preserves_bind (preserves_read _) fun _ => preserves_ite
          (preserves_bind (editScheduler_lasts steady _) fun _ =>
            preserves_bind (preserves_read _) (findStrings_lasts steady)) (preserves_pure ()))
        (preserves_pure ())

theorem analysisRun_lasts : Lasts good analysisRun :=
  preserves_bind (editScheduler_lasts steady _) fun _ =>
    preserves_bind (analysisPass_lasts steady) fun _ =>
      preserves_bind (update_lasts steady fun _ => ⟨rfl, rfl, rfl, id⟩) fun due =>
        preserves_bind (complete_lasts steady due) fun _ => editScheduler_lasts steady _

theorem runRequested_lasts (fuel : Nat) : Lasts good (runRequested fuel) := by
  induction fuel with
  | zero => exact preserves_pure ()
  | succ fuel ih =>
    exact preserves_bind (preserves_read _) fun _ => preserves_ite
      (preserves_bind (analysisRun_lasts steady) fun _ => ih) (preserves_pure ())

theorem requestAnalysis_lasts : Lasts good requestAnalysis :=
  preserves_bind (preserves_read _) fun _ =>
    preserves_ite (editScheduler_lasts steady _) (preserves_pure ())

theorem reanalyze_lasts : Lasts good reanalyze :=
  preserves_bind (preserves_read _) fun starts =>
    preserves_bind (editFunctions_lasts steady _) fun _ =>
      preserves_bind (preserves_forEach (fun _ => editScheduler_lasts steady _) starts) fun _ =>
        requestAnalysis_lasts steady

theorem abortAnalysis_lasts : Lasts good abortAnalysis :=
  preserves_bind (update_lasts steady fun _ => ⟨rfl, rfl, rfl, id⟩) fun due =>
    complete_lasts steady due

end Analysis

/-- To bring back something else than the layout. -/
theorem redoAction_lasts {action : UndoAction} (plain : action.isLayout = false) :
    Lasts good (redoAction action) := by
  cases action with
  | segment start before after => cases plain
  | «section» name before after => cases plain
  | write a before after => exact preserves_discard (write_lasts steady a after)
  | insert a bytes => exact preserves_discard (insert_lasts steady a bytes)
  | remove a bytes => exact preserves_discard (remove_lasts steady a _)
  | «variable» a before after => exact restoreVariable_lasts steady a after
  | symbol key before after => exact restoreSymbol_lasts steady key after
  | type name before after => exact restoreType_lasts steady name after
  | comment a before after => exact setComment_lasts steady a _
  | value key before after => exact restoreValue_lasts steady key after
  | function a before after =>
    exact preserves_ite (preserves_discard (createUserFunction_lasts steady a))
      (preserves_discard (removeFunction_lasts steady a false))
  | tag key before after => exact restoreTag_lasts steady key after
  | reference source target before after =>
    exact preserves_ite (preserves_discard (addReference_lasts steady source target))
      (preserves_discard (removeReference_lasts steady source target))

end Space

namespace SpaceEdit

/-- Neither changes the layout nor replays what may have changed it. -/
def sparesLayout : SpaceEdit → Bool
  | addSegment _ | removeSegment _ _ | addSection _ _ | removeSection _ _ | defineRelocation _
  | undo | redo => false
  | _ => true

end SpaceEdit

namespace Space

open Op

variable {good : Space → Prop}

theorem edit_lasts (steady : Steady good) {edit : SpaceEdit} (spares : edit.sparesLayout = true) :
    Lasts good edit.run := by
  cases edit with
  | addSegment segment => cases spares
  | removeSegment start auto => cases spares
  | addSection section_ auto => cases spares
  | removeSection name auto => cases spares
  | defineRelocation range => cases spares
  | undo => cases spares
  | redo => cases spares
  | write a data => exact preserves_discard (write_lasts steady a data)
  | insert a data => exact preserves_discard (insert_lasts steady a data)
  | remove a length => exact preserves_discard (remove_lasts steady a length)
  | share edit event => exact share_lasts steady edit event
  | setComment a text => exact setComment_lasts steady a text
  | storeValue key value auto => exact storeValue_lasts steady key value auto
  | removeValue key => exact preserves_discard (removeValue_lasts steady key)
  | defineVariable v => exact defineVariable_lasts steady v
  | undefineVariable a auto => exact preserves_discard (undefineVariable_lasts steady a auto)
  | defineSymbol symbol => exact defineSymbol_lasts steady symbol
  | undefineSymbol key auto => exact preserves_discard (undefineSymbol_lasts steady key auto)
  | defineImport slot function =>
    exact preserves_bind (defineSymbol_lasts steady _) fun _ => defineSymbol_lasts steady _
  | beginBulk => exact beginBulk_lasts steady
  | endBulk => exact endBulk_lasts steady
  | defineType name type auto => exact preserves_discard (defineType_lasts steady name type auto)
  | undefineType name auto => exact preserves_discard (undefineType_lasts steady name auto)
  | renameType old new => exact preserves_discard (renameType_lasts steady old new)
  | addTagType type => exact addTagType_lasts steady type
  | createTagType name icon => exact preserves_discard (createTagType_lasts steady name icon)
  | removeTagType id => exact preserves_discard (removeTagType_lasts steady id)
  | addTag a tag auto => exact preserves_discard (addTag_lasts steady a tag auto)
  | createTag a type data auto => exact preserves_discard (createTag_lasts steady a type data auto)
  | removeTag a id auto => exact preserves_discard (removeTag_lasts steady a id auto)
  | removeTagsOfType a type auto =>
    exact preserves_discard (removeTagsOfType_lasts steady a type auto)
  | updateTag id data => exact preserves_discard (updateTag_lasts steady id data)
  | addReference source target => exact preserves_discard (addReference_lasts steady source target)
  | removeReference source target =>
    exact preserves_discard (removeReference_lasts steady source target)
  | addFunction a => exact preserves_discard (addFunction_lasts steady a)
  | createUserFunction a => exact preserves_discard (createUserFunction_lasts steady a)
  | removeFunction a auto => exact preserves_discard (removeFunction_lasts steady a auto)
  | addEntryPoint a => exact addEntryPoint_lasts steady a
  | reanalyzeFunction a => exact preserves_discard (reanalyzeFunction_lasts steady a)
  | reanalyze => exact reanalyze_lasts steady
  | requestAnalysis => exact requestAnalysis_lasts steady
  | abortAnalysis => exact abortAnalysis_lasts steady
  | runRequested fuel => exact runRequested_lasts steady fuel
  | schedule f => exact editScheduler_lasts steady f
  | setArchitecture architecture => exact modify_lasts steady fun _ => ⟨rfl, rfl, rfl, id⟩
  | beginUndo => exact editUndoLog_lasts steady .begin
  | commitUndo =>
    exact preserves_discard fun s here _ =>
      ⟨steady.elsewhere here rfl rfl (.commit s.undoLog) id, trivial⟩
  | clearUndo => exact editUndoLog_lasts steady .clear
  | passIds count => exact modify_lasts steady fun _ => ⟨rfl, rfl, rfl, id⟩

end Space

end BinaryAtlas
