import BinaryAtlas.Proofs.Space.Filing

/-!
Each edit of a space keeps its tables filed and its log canonical, whatever those who listen do.
-/

set_option autoImplicit false

namespace BinaryAtlas

namespace Space

open Op

section Bytes

theorem tell_plain {s : Space} (here : s.Fits → s.Filed) {event : ChangeEvent}
    (plain : event.isAboutSymbol = false) : ((tell event) s).Always Filed Fits := by
  rw [tell_at_once (.inl plain)]
  exact fun room => ⟨here room, fun s' here' room' => ⟨here', room'⟩⟩

/-- A change of the storage is told of, and only what a machine can hold is gone on with. -/
theorem noted_filed {α : Type} {s : Space} (here : s.Fits → s.Filed) (action : UndoAction)
    {event : ChangeEvent} (plain : event.isAboutSymbol = false) (answer : α) :
    ((do record action; emit [event]; pure answer : Op α) s).Always Filed Fits := by
  have noted (room : s.Fits) : Filed { s with undoLog := s.undoLog.record action } :=
    ⟨(here room).map, (here room).functions, (here room).log, (here room).bulk⟩
  refine Run.always_bind (r := (emit [event]) _) ?_ fun _ s here room => ⟨here, room⟩
  refine Run.always_bind ?_ fun _ => wake_filed [event]
  exact Run.always_bind (tell_plain noted plain) fun _ s here room => ⟨here, room⟩

theorem stored_filed {s : Space} (here : s.Filed) {storage : Storage}
    (canonical : storage.log.Canonical) : Filed { s with storage := storage } :=
  ⟨here.map, here.functions, canonical, here.bulk⟩

theorem write_filed (a : Word) (data : List UInt8) : KeepsFiled (write a data) := by
  unfold write
  refine preserves_ite (preserves_pure 0) ?_
  refine preserves_bind (preserves_read _) fun before s here room => ?_
  have canonical := Backend.write_canonical (b := s.backend) (m := s.map) here.log a data
  by_cases none : (s.backend.write s.map s.storage a data).2 = 0
  · show Run.Always _ _ ((if _ then _ else _ : Op Nat) _)
    rw [if_pos none]
    exact ⟨stored_filed here canonical, Backend.write_none_fits room none⟩
  · show Run.Always _ _ ((if _ then _ else _ : Op Nat) _)
    rw [if_neg none]
    exact noted_filed (fun _ => stored_filed here canonical) _ rfl _

theorem insert_filed (a : Word) (data : List UInt8) : KeepsFiled (insert a data) := by
  unfold insert
  refine preserves_ite (preserves_pure 0) fun s here room => ?_
  have canonical := Backend.insert_canonical (b := s.backend) here.log room a data
  by_cases none : (s.backend.insert s.storage a data).2 = 0
  · have fits := Backend.insert_none_fits room none
    show Run.Always _ _ ((if _ then _ else _ : Op Nat) _)
    rw [if_pos none]
    exact ⟨stored_filed here (canonical fits), fits⟩
  · show Run.Always _ _ ((if _ then _ else _ : Op Nat) _)
    rw [if_neg none]
    exact noted_filed (fun fits => stored_filed here (canonical fits)) _ rfl _

theorem remove_filed (a length : Word) : KeepsFiled (remove a length) := by
  unfold remove
  refine preserves_ite (preserves_pure 0) ?_
  refine preserves_bind (preserves_read _) fun before s here room => ?_
  have canonical := Backend.remove_canonical (b := s.backend) here.log a length
  by_cases none : (s.backend.remove s.storage a length).2 = 0
  · show Run.Always _ _ ((if _ then _ else _ : Op Word) _)
    rw [if_pos none]
    exact ⟨stored_filed here canonical, Backend.remove_none_fits room none⟩
  · show Run.Always _ _ ((if _ then _ else _ : Op Word) _)
    rw [if_neg none]
    exact noted_filed (fun _ => stored_filed here canonical) _ rfl _

theorem share_filed (edit : StorageEdit) (event : ChangeEvent) :
    KeepsFiled (SpaceEdit.share edit event).run := fun _ here room fits =>
  ⟨stored_filed here (Storage.apply_canonical here.log room edit fits),
    fun _ here' room' => ⟨here', room'⟩⟩

end Bytes

section Layout

theorem addSegment_filed (segment : Segment) : KeepsFiled (addSegment segment) := by
  refine preserves_read_bind fun s here room => ?_
  cases added : s.map.add segment with
  | error e => exact ⟨here, room⟩
  | ok outcome =>
    obtain ⟨map, id⟩ := outcome
    have now : Filed { s with map := map } :=
      ⟨SegmentMap.add_filed here.map added, here.functions, here.log, here.bulk⟩
    refine Run.always_bind (r := .done () _) ⟨now, room⟩ fun _ s here room => ?_
    cases map.byId? id with
    | none => exact ⟨here, room⟩
    | some stored =>
      refine preserves_bind (recordIf_filed _ _) (fun _ => ?_) s here room
      exact preserves_bind (emit_filed _) fun _ => preserves_pure _

theorem removeSegment_filed (start : Word) (auto : Bool) :
    KeepsFiled (removeSegment start auto) := by
  refine preserves_bind (update_filed (fun s filed => SegmentMap.remove_filed filed start auto)
    (fun _ filed => filed) fun _ => ⟨rfl, rfl⟩) fun removed => ?_
  cases removed with
  | none => exact preserves_pure false
  | some segment =>
    exact preserves_bind (recordIf_filed _ _) fun _ =>
      preserves_bind (emit_filed _) fun _ => preserves_pure true

theorem restoreSegment_filed (start : Word) (state : Option Segment) :
    KeepsFiled (restoreSegment start state) := by
  refine preserves_bind (update_filed ?_ ?_ ?_) fun events => emit_filed events
  · intro s filed
    have removed := SegmentMap.remove_filed filed start false
    cases state with
    | none => exact removed
    | some segment =>
      cases restored : (s.map.remove start false).1.restore segment with
      | error e => simp only [restored]; exact removed
      | ok map => simp only [restored]; exact SegmentMap.restore_filed removed restored
  · intro s filed
    cases state with
    | none => exact filed
    | some segment => simp only; split <;> exact filed
  · intro s
    cases state with
    | none => exact ⟨rfl, rfl⟩
    | some segment => simp only; split <;> exact ⟨rfl, rfl⟩

theorem addSection_filed (section_ : Section) (auto : Bool) :
    KeepsFiled (addSection section_ auto) :=
  preserves_bind (update_filed (fun _ filed => SegmentMap.addSection_filed filed _)
    (fun _ filed => filed) fun _ => ⟨rfl, rfl⟩) fun _ =>
      preserves_bind (recordIf_filed _ _) fun _ => emit_filed _

theorem removeSection_filed (name : String) (auto : Bool) :
    KeepsFiled (removeSection name auto) := by
  refine preserves_bind (update_filed
    (fun _ filed => SegmentMap.removeSection_filed filed name auto) (fun _ filed => filed)
    fun _ => ⟨rfl, rfl⟩) fun removed => ?_
  cases removed with
  | none => exact preserves_pure false
  | some section_ =>
    exact preserves_bind (recordIf_filed _ _) fun _ =>
      preserves_bind (emit_filed _) fun _ => preserves_pure true

theorem restoreSection_filed (name : String) (state : Option Section) :
    KeepsFiled (restoreSection name state) := by
  refine preserves_bind (update_filed ?_ ?_ ?_) fun events => emit_filed events
  · intro s filed
    have removed := SegmentMap.removeSection_filed filed name false
    cases state with
    | none => exact removed
    | some section_ => exact SegmentMap.addSection_filed removed section_
  · exact fun s filed => by cases state <;> exact filed
  · exact fun s => by cases state <;> exact ⟨rfl, rfl⟩

theorem defineRelocation_filed (range : AddressRange) : KeepsFiled (defineRelocation range) :=
  update_filed (fun _ filed => SegmentMap.addRelocation_filed filed range) (fun _ filed => filed)
    fun _ => ⟨rfl, rfl⟩

end Layout

section Records

theorem told_filed {α : Type} (condition : Bool) (action : UndoAction) (events : List ChangeEvent)
    (answer : α) :
    KeepsFiled (do recordIf condition action; emit events; pure answer : Op α) :=
  preserves_bind (recordIf_filed _ _) fun _ =>
    preserves_bind (emit_filed _) fun _ => preserves_pure answer

theorem setComment_filed (a : Word) (text : String) : KeepsFiled (setComment a text) :=
  preserves_bind (preserves_read _) fun _ => preserves_bind (editMetadata_filed _) fun _ =>
    preserves_ite (preserves_pure ()) (preserves_bind (record_filed _) fun _ => emit_filed _)

theorem storeValue_filed (key : String) (value : Json) (auto : Bool) :
    KeepsFiled (storeValue key value auto) :=
  preserves_bind (preserves_read _) fun _ => preserves_bind (editMetadata_filed _) fun _ =>
    preserves_ite (preserves_pure ()) (preserves_bind (recordIf_filed _ _) fun _ => emit_filed _)

theorem removeValue_filed (key : String) : KeepsFiled (removeValue key) := by
  refine preserves_bind (preserves_read _) fun before => ?_
  cases before with
  | none => exact preserves_pure false
  | some value => exact preserves_bind (editMetadata_filed _) fun _ => told_filed _ _ _ _

theorem restoreValue_filed (key : String) (state : Option Json) :
    KeepsFiled (restoreValue key state) := by
  cases state with
  | none => exact preserves_discard (removeValue_filed key)
  | some value => exact storeValue_filed key value false

theorem defineVariable_filed (v : DataVariable) : KeepsFiled (defineVariable v) := by
  refine preserves_bind (update_elsewhere_filed fun _ => ⟨rfl, rfl, rfl, rfl⟩)
    fun outcome => preserves_bind (recordIf_filed _ _) fun _ => ?_
  cases outcome <;> first | exact emit_filed _ | exact preserves_pure ()

theorem undefineVariable_filed (a : Word) (auto : Bool) :
    KeepsFiled (undefineVariable a auto) := by
  refine preserves_bind (update_elsewhere_filed fun _ => ⟨rfl, rfl, rfl, rfl⟩)
    fun removed => ?_
  cases removed with
  | none => exact preserves_pure false
  | some v => exact told_filed _ _ _ _

theorem restoreVariable_filed (a : Word) (state : Option DataVariable) :
    KeepsFiled (restoreVariable a state) :=
  preserves_bind (preserves_read _) fun _ => preserves_bind (editMetadata_filed _) fun _ =>
    emit_filed _

theorem defineSymbol_filed (symbol : Symbol) : KeepsFiled (defineSymbol symbol) := by
  refine preserves_bind (update_elsewhere_filed fun _ => ⟨rfl, rfl, rfl, rfl⟩)
    fun outcome => preserves_bind (recordIf_filed _ _) fun _ => ?_
  cases outcome <;> first | exact emit_filed _ | exact preserves_pure ()

theorem undefineSymbol_filed (key : SymbolKey) (auto : Bool) :
    KeepsFiled (undefineSymbol key auto) := by
  refine preserves_bind (update_elsewhere_filed fun _ => ⟨rfl, rfl, rfl, rfl⟩)
    fun removed => ?_
  cases removed with
  | none => exact preserves_pure false
  | some symbol => exact told_filed _ _ _ _

theorem restoreSymbol_filed (key : SymbolKey) (state : Option Symbol) :
    KeepsFiled (restoreSymbol key state) :=
  preserves_bind (preserves_read _) fun _ => preserves_bind (editMetadata_filed _) fun _ =>
    emit_filed _

theorem definedType_filed (name : String) (type : DataType) (auto : Bool) (id : Uuid) :
    KeepsFiled (do
      let record : TypeRecord := ⟨id, type, auto⟩
      let outcome ← Op.update fun s =>
        let (types, outcome) := s.metadata.types.define name record
        ({ s with metadata := { s.metadata with types := types } }, outcome)
      recordIf (!auto && !outcome.isIgnored) (.type name outcome.before? (some record))
      match outcome with
      | .added => emit [.typeDefined name type]
      | .updated _ =>
        emit (.typeDefined name type ::
          (← Op.read fun s => TypeLibrary.mentionEvents s.metadata name))
      | .unchanged _ => emit []
      | .ignored => pure ()
      pure (.ok id) : Op (Except AtlasError Uuid)) := by
  refine preserves_bind (update_elsewhere_filed fun _ => ⟨rfl, rfl, rfl, rfl⟩)
    fun outcome => preserves_bind (recordIf_filed _ _) fun _ => ?_
  cases outcome with
  | added => exact preserves_bind (emit_filed _) fun _ => preserves_pure _
  | updated before =>
    exact preserves_bind (preserves_read _) fun _ =>
      preserves_bind (emit_filed _) fun _ => preserves_pure _
  | unchanged before => exact preserves_bind (emit_filed _) fun _ => preserves_pure _
  | ignored => exact preserves_pure _

theorem defineType_filed (name : String) (type : DataType) (auto : Bool) :
    KeepsFiled (defineType name type auto) := by
  unfold defineType
  cases QualifiedName.parse name with
  | error e => exact preserves_pure _
  | ok qualified =>
    refine preserves_bind (preserves_read _) fun before => ?_
    cases before
    · refine preserves_bind freshId_filed ?_
      exact definedType_filed qualified.text type auto
    · refine preserves_bind (preserves_pure _) ?_
      exact definedType_filed qualified.text type auto

theorem undefineType_filed (name : String) (auto : Bool) : KeepsFiled (undefineType name auto) := by
  refine preserves_bind (update_elsewhere_filed fun _ => ⟨rfl, rfl, rfl, rfl⟩)
    fun removed => ?_
  cases removed with
  | none => exact preserves_pure false
  | some record => exact preserves_bind (preserves_read _) fun _ => told_filed _ _ _ _

theorem renameType_filed (old new : String) : KeepsFiled (renameType old new) := by
  unfold renameType
  cases QualifiedName.parse new with
  | error e => exact preserves_pure _
  | ok qualified =>
    refine preserves_bind (preserves_read _) fun types =>
      preserves_ite (preserves_pure _) ?_
    cases types.get? old with
    | none => exact preserves_pure _
    | some record =>
      have told : KeepsFiled (do
          emit [.typeUndefined old record.type, .typeDefined qualified.text record.type]
          pure (.ok true) : Op (Except AtlasError Bool)) :=
        preserves_bind (emit_filed _) fun _ => preserves_pure _
      exact preserves_bind (editMetadata_filed _) fun _ =>
        preserves_ite (preserves_bind (modify_elsewhere_filed fun _ => ⟨rfl, rfl, rfl, rfl⟩)
          fun _ => told) told

theorem restoreType_filed (name : String) (state : Option TypeRecord) :
    KeepsFiled (restoreType name state) := by
  refine preserves_bind (preserves_read _) fun before => ?_
  refine preserves_bind (editMetadata_filed _) fun _ => preserves_bind (preserves_read _)
    fun _ => ?_
  cases before with
  | none => cases state <;> exact emit_filed _
  | some old =>
    cases state with
    | none => exact emit_filed _
    | some new => exact preserves_ite (emit_filed _) (emit_filed _)

theorem addTagType_filed (type : TagType) : KeepsFiled (addTagType type) :=
  preserves_bind (preserves_read _) fun _ => preserves_bind (editMetadata_filed _) fun _ =>
    preserves_ite (preserves_pure ()) (emit_filed _)

theorem createTagType_filed (name icon : String) : KeepsFiled (createTagType name icon) :=
  preserves_bind freshId_filed fun _ => preserves_bind (addTagType_filed _) fun _ =>
    preserves_pure _

theorem removeTagType_filed (id : Uuid) : KeepsFiled (removeTagType id) := by
  refine preserves_bind (preserves_read _) fun type => ?_
  cases type with
  | none => exact preserves_pure false
  | some type =>
    exact preserves_bind (preserves_read _) fun _ => preserves_bind (editMetadata_filed _) fun _ =>
      preserves_bind (emit_filed _) fun _ => preserves_pure true

theorem addTag_filed (a : Word) (tag : Tag) (auto : Bool) : KeepsFiled (addTag a tag auto) := by
  refine preserves_bind (preserves_read _) fun _ => preserves_ite (preserves_pure _) ?_
  refine preserves_bind (update_elsewhere_filed fun _ => ⟨rfl, rfl, rfl, rfl⟩)
    fun outcome => preserves_bind (recordIf_filed _ _) fun _ => ?_
  cases outcome <;>
    first
    | exact preserves_bind (emit_filed _) fun _ => preserves_pure _
    | exact preserves_pure _

theorem createTag_filed (a : Word) (type : Uuid) (data : String) (auto : Bool) :
    KeepsFiled (createTag a type data auto) := by
  refine preserves_bind freshId_filed fun _ => preserves_bind (addTag_filed _ _ _) fun outcome => ?_
  cases outcome <;> exact preserves_pure _

theorem removeTag_filed (a : Word) (id : Uuid) (auto : Bool) :
    KeepsFiled (removeTag a id auto) := by
  refine preserves_bind (update_elsewhere_filed fun _ => ⟨rfl, rfl, rfl, rfl⟩)
    fun removed => ?_
  cases removed with
  | none => exact preserves_pure false
  | some reference => exact told_filed _ _ _ _

theorem removeTags_filed (a : Word) (auto : Bool) (ids : List Uuid) :
    KeepsFiled (removeTags a auto ids) := by
  induction ids with
  | nil => exact preserves_pure 0
  | cons id rest ih =>
    exact preserves_bind (removeTag_filed a id auto) fun _ => preserves_bind ih fun _ =>
      preserves_pure _

theorem removeTagsOfType_filed (a : Word) (type : Uuid) (auto : Bool) :
    KeepsFiled (removeTagsOfType a type auto) :=
  preserves_bind (preserves_read _) fun _ => removeTags_filed a auto _

theorem restoreTag_filed (key : TagKey) (state : Option TagReference) :
    KeepsFiled (restoreTag key state) :=
  preserves_bind (preserves_read _) fun _ => preserves_bind (editMetadata_filed _) fun _ =>
    emit_filed _

theorem updateTag_filed (id : Uuid) (data : String) : KeepsFiled (updateTag id data) :=
  preserves_bind (preserves_read _) fun _ => preserves_bind (editMetadata_filed _) fun _ =>
    preserves_bind (preserves_forEach (fun _ => record_filed _) _) fun _ =>
      preserves_bind (emit_filed _) fun _ => preserves_pure _

theorem addReference_filed (source target : Word) : KeepsFiled (addReference source target) :=
  preserves_bind (preserves_read _) fun _ => preserves_ite (preserves_pure false) <|
    preserves_bind (editMetadata_filed _) fun _ => preserves_bind (record_filed _) fun _ =>
      preserves_pure true

theorem removeReference_filed (source target : Word) :
    KeepsFiled (removeReference source target) :=
  preserves_bind (preserves_read _) fun _ => preserves_ite (preserves_pure false) <|
    preserves_bind (editMetadata_filed _) fun _ => preserves_bind (record_filed _) fun _ =>
      preserves_pure true

end Records

section Functions

theorem insertFunction_filed (a : Word) : KeepsFiled (insertFunction a) := by
  refine preserves_bind (preserves_read _) fun _ => preserves_ite (preserves_pure false) ?_
  refine preserves_bind (update_filed (fun _ filed => filed)
    (fun s filed => FunctionTable.add_filed filed a true) fun _ => ⟨rfl, rfl⟩) fun new => ?_
  exact preserves_ite (preserves_bind (editScheduler_filed _) fun _ => preserves_pure new)
    (preserves_pure new)

theorem addFunction_filed (a : Word) : KeepsFiled (addFunction a) :=
  preserves_bind (insertFunction_filed a) fun new =>
    preserves_ite (preserves_bind (emit_filed _) fun _ => preserves_pure new) (preserves_pure new)

theorem addFoundFunction_filed (a : Word) : KeepsFiled (addFoundFunction a) :=
  preserves_bind (insertFunction_filed a) fun _ =>
    preserves_ite (tellQuietly_filed _) (preserves_pure ())

/-- A function that is put in place of the one at its start. -/
theorem replaceFunction_filed {s : Space} (here : s.Filed) {f : Function} {a : Word}
    (own : f.start = a) :
    Filed { s with functions :=
      { s.functions with functions := s.functions.functions.insert a f } } :=
  ⟨here.map, FunctionTable.insert_filed here.functions own, here.log, here.bulk⟩

theorem createUserFunction_filed (a : Word) : KeepsFiled (createUserFunction a) := by
  refine preserves_bind (preserves_read _) fun _ => preserves_ite (preserves_pure false) ?_
  refine preserves_read_bind fun s here room => ?_
  have noted (event : ChangeEvent) : KeepsFiled (do
      record (.function a false true)
      editScheduler (·.noteSubmit a)
      emit [event]
      pure true) :=
    preserves_bind (record_filed _) fun _ => preserves_bind (editScheduler_filed _) fun _ =>
      preserves_bind (emit_filed _) fun _ => preserves_pure true
  cases held : s.functions.functions.get? a with
  | none =>
    exact preserves_bind (editFunctions_filed fun t filed => FunctionTable.add_filed filed a false)
      (fun _ => noted (.functionAdded a)) s here room
  | some f =>
    simp only
    split
    · exact ⟨here, room⟩
    · have now := replaceFunction_filed (f := { f with auto := false }) here
        (here.functions a f held)
      exact Run.always_bind (r := .done () _) ⟨now, room⟩ fun _ => noted (.functionUpdated a)

theorem removeFunction_filed (a : Word) (auto : Bool) : KeepsFiled (removeFunction a auto) := by
  refine preserves_bind (preserves_read _) fun found => ?_
  cases found with
  | none => exact preserves_pure false
  | some f =>
    refine preserves_ite (preserves_pure false) ?_
    refine preserves_bind (editFunctions_filed fun t filed key g held => ?_) fun _ =>
      preserves_bind (editMetadata_filed _) fun _ => told_filed _ _ _ _
    exact filed key g (Table.get?_erase_eq_some_iff.1 held).2

theorem addEntryPoint_filed (a : Word) : KeepsFiled (addEntryPoint a) := by
  refine preserves_bind (editFunctions_filed fun t filed => ?_) fun _ =>
    preserves_discard (addFunction_filed a)
  split <;> exact filed

theorem enqueueAll_filed (starts : List Word) :
    KeepsFiled (editFunctions (·.enqueueAll starts)) := by
  refine editFunctions_filed fun t filed a f held => filed a f ?_
  rwa [FunctionTable.enqueueAll_functions] at held

theorem reanalyzeFunction_filed (a : Word) : KeepsFiled (reanalyzeFunction a) :=
  preserves_bind (preserves_read _) fun _ => preserves_ite (preserves_pure false) <|
    preserves_bind (enqueueAll_filed [a]) fun _ => preserves_bind (editScheduler_filed _) fun _ =>
      preserves_bind (emit_filed _) fun _ => preserves_pure true

end Functions

section Analysis

theorem complete_filed (events : List Nat) : KeepsFiled (complete events) :=
  preserves_forEach (fun _ => preserves_bind
    (update_elsewhere_filed fun _ => ⟨rfl, rfl, rfl, rfl⟩) fun _ =>
      preserves_ite (preserves_notify _) (preserves_pure ())) events

theorem updateFunction_filed (found : Discovery) : KeepsFiled (updateFunction found) := by
  refine preserves_read_bind fun s here room => ?_
  cases held : s.functions.functions.get? found.start with
  | none => exact ⟨here, room⟩
  | some f =>
    have now := replaceFunction_filed (f := { f with
      blocks := found.blocks, calls := found.calls, skipped := found.skipped }) here
      (here.functions found.start f held)
    exact Run.always_bind (r := .done () _) ⟨now, room⟩ fun _ =>
      preserves_ite (preserves_bind (tellQuietly_filed _) fun _ => preserves_pure true)
        (preserves_pure true)

theorem applyDiscovery_filed (found : Discovery) : KeepsFiled (applyDiscovery found) :=
  preserves_bind (updateFunction_filed found) fun _ => preserves_ite
    (preserves_bind (editMetadata_filed _) fun _ => preserves_forEach addFoundFunction_filed _)
    (preserves_pure ())

theorem analyzeQueue_filed (architecture : Option Architecture) (limits : ExploreLimits)
    (fuel : Nat) : KeepsFiled (analyzeQueue architecture limits fuel) := by
  induction fuel with
  | zero => exact preserves_pure false
  | succ fuel ih =>
    refine preserves_bind (update_filed (fun _ filed => filed) (fun _ filed => filed)
      fun _ => ⟨rfl, rfl⟩) fun batch => preserves_ite (preserves_pure true) ?_
    refine preserves_bind (preserves_read _) fun _ => preserves_ite
      (preserves_bind (enqueueAll_filed batch) fun _ => preserves_pure false) ?_
    refine preserves_bind (editScheduler_filed _) fun _ => preserves_bind
      (preserves_bind (preserves_read _) fun _ => preserves_bind (editScheduler_filed _) fun _ =>
        preserves_pure _) fun found => ?_
    refine preserves_bind (editScheduler_filed _) fun _ => preserves_bind (preserves_forEach
      (fun discovery => preserves_bind (applyDiscovery_filed discovery) fun _ =>
        editScheduler_filed _) found) fun _ => ih

theorem findStrings_filed (segments : List Segment) : KeepsFiled (findStrings segments) := by
  refine preserves_forEach (fun segment => preserves_bind (preserves_read _) fun _ =>
    preserves_ite (preserves_bind (preserves_read _) fun found => ?_) (preserves_pure ())) segments
  exact preserves_bind (preserves_read _) fun _ => preserves_bind (editMetadata_filed _) fun _ =>
    tellQuietly_filed _

theorem analysisPass_filed : KeepsFiled analysisPass := by
  refine preserves_bind (preserves_read _) fun limits => preserves_bind (preserves_read _)
    fun architecture => preserves_bind (analyzeQueue_filed architecture limits batchFuel) fun _ =>
      preserves_ite ?_ (preserves_pure ())
  exact preserves_bind (preserves_read _) fun _ => preserves_ite
    (preserves_bind (editScheduler_filed _) fun _ => preserves_bind (preserves_read _)
      findStrings_filed) (preserves_pure ())

theorem analysisRun_filed : KeepsFiled analysisRun :=
  preserves_bind (editScheduler_filed _) fun _ => preserves_bind analysisPass_filed fun _ =>
    preserves_bind (update_elsewhere_filed fun _ => ⟨rfl, rfl, rfl, rfl⟩)
      fun due => preserves_bind (complete_filed due) fun _ => editScheduler_filed _

theorem runRequested_filed (fuel : Nat) : KeepsFiled (runRequested fuel) := by
  induction fuel with
  | zero => exact preserves_pure ()
  | succ fuel ih =>
    exact preserves_bind (preserves_read _) fun _ =>
      preserves_ite (preserves_bind analysisRun_filed fun _ => ih) (preserves_pure ())

theorem requestAnalysis_filed : KeepsFiled requestAnalysis :=
  preserves_bind (preserves_read _) fun _ =>
    preserves_ite (editScheduler_filed _) (preserves_pure ())

theorem reanalyze_filed : KeepsFiled reanalyze :=
  preserves_bind (preserves_read _) fun starts => preserves_bind (enqueueAll_filed starts) fun _ =>
    preserves_bind (preserves_forEach (fun _ => editScheduler_filed _) starts) fun _ =>
      requestAnalysis_filed

theorem abortAnalysis_filed : KeepsFiled abortAnalysis :=
  preserves_bind (update_elsewhere_filed fun _ => ⟨rfl, rfl, rfl, rfl⟩)
    fun due => complete_filed due

end Analysis

section Undo

theorem redoAction_filed (action : UndoAction) : KeepsFiled (redoAction action) := by
  cases action with
  | write a before after => exact preserves_discard (write_filed a after)
  | insert a bytes => exact preserves_discard (insert_filed a bytes)
  | remove a bytes => exact preserves_discard (remove_filed a _)
  | segment start before after => exact restoreSegment_filed start after
  | «section» name before after => exact restoreSection_filed name after
  | «variable» a before after => exact restoreVariable_filed a after
  | symbol key before after => exact restoreSymbol_filed key after
  | type name before after => exact restoreType_filed name after
  | comment a before after => exact setComment_filed a _
  | value key before after => exact restoreValue_filed key after
  | function a before after =>
    exact preserves_ite (preserves_discard (createUserFunction_filed a))
      (preserves_discard (removeFunction_filed a false))
  | tag key before after => exact restoreTag_filed key after
  | reference source target before after =>
    exact preserves_ite (preserves_discard (addReference_filed source target))
      (preserves_discard (removeReference_filed source target))

theorem undo_filed : KeepsFiled undo := by
  refine preserves_bind (preserves_read _) fun log => preserves_ite (preserves_pure false) ?_
  split
  · exact preserves_pure false
  · exact preserves_bind (editUndoLog_filed _) fun _ => preserves_bind
      (preserves_forEach (fun action => redoAction_filed (inverse action)) _) fun _ =>
        preserves_bind (editUndoLog_filed _) fun _ => preserves_pure true

theorem redo_filed : KeepsFiled redo := by
  refine preserves_bind (preserves_read _) fun log => preserves_ite (preserves_pure false) ?_
  split
  · exact preserves_pure false
  · exact preserves_bind (editUndoLog_filed _) fun _ => preserves_bind
      (preserves_forEach redoAction_filed _) fun _ =>
        preserves_bind (editUndoLog_filed _) fun _ => preserves_pure true

end Undo

theorem edit_filed (edit : SpaceEdit) : KeepsFiled edit.run := by
  cases edit with
  | write a data => exact preserves_discard (write_filed a data)
  | insert a data => exact preserves_discard (insert_filed a data)
  | remove a length => exact preserves_discard (remove_filed a length)
  | share edit event => exact share_filed edit event
  | addSegment segment => exact preserves_discard (addSegment_filed segment)
  | removeSegment start auto => exact preserves_discard (removeSegment_filed start auto)
  | addSection section_ auto => exact addSection_filed section_ auto
  | removeSection name auto => exact preserves_discard (removeSection_filed name auto)
  | defineRelocation range => exact preserves_discard (defineRelocation_filed range)
  | setComment a text => exact setComment_filed a text
  | storeValue key value auto => exact storeValue_filed key value auto
  | removeValue key => exact preserves_discard (removeValue_filed key)
  | defineVariable v => exact defineVariable_filed v
  | undefineVariable a auto => exact preserves_discard (undefineVariable_filed a auto)
  | defineSymbol symbol => exact defineSymbol_filed symbol
  | undefineSymbol key auto => exact preserves_discard (undefineSymbol_filed key auto)
  | defineImport slot function =>
    exact preserves_bind (defineSymbol_filed _) fun _ => defineSymbol_filed _
  | beginBulk => exact beginBulk_filed
  | endBulk => exact endBulk_filed
  | defineType name type auto => exact preserves_discard (defineType_filed name type auto)
  | undefineType name auto => exact preserves_discard (undefineType_filed name auto)
  | renameType old new => exact preserves_discard (renameType_filed old new)
  | addTagType type => exact addTagType_filed type
  | createTagType name icon => exact preserves_discard (createTagType_filed name icon)
  | removeTagType id => exact preserves_discard (removeTagType_filed id)
  | addTag a tag auto => exact preserves_discard (addTag_filed a tag auto)
  | createTag a type data auto => exact preserves_discard (createTag_filed a type data auto)
  | removeTag a id auto => exact preserves_discard (removeTag_filed a id auto)
  | removeTagsOfType a type auto => exact preserves_discard (removeTagsOfType_filed a type auto)
  | updateTag id data => exact preserves_discard (updateTag_filed id data)
  | addReference source target => exact preserves_discard (addReference_filed source target)
  | removeReference source target =>
    exact preserves_discard (removeReference_filed source target)
  | addFunction a => exact preserves_discard (addFunction_filed a)
  | createUserFunction a => exact preserves_discard (createUserFunction_filed a)
  | removeFunction a auto => exact preserves_discard (removeFunction_filed a auto)
  | addEntryPoint a => exact addEntryPoint_filed a
  | reanalyzeFunction a => exact preserves_discard (reanalyzeFunction_filed a)
  | reanalyze => exact reanalyze_filed
  | requestAnalysis => exact requestAnalysis_filed
  | abortAnalysis => exact abortAnalysis_filed
  | runRequested fuel => exact runRequested_filed fuel
  | schedule f => exact editScheduler_filed f
  | setArchitecture architecture =>
    exact modify_elsewhere_filed fun _ => ⟨rfl, rfl, rfl, rfl⟩
  | beginUndo => exact editUndoLog_filed _
  | commitUndo =>
    exact preserves_discard
      (update_elsewhere_filed fun _ => ⟨rfl, rfl, rfl, rfl⟩)
  | clearUndo => exact editUndoLog_filed _
  | undo => exact preserves_discard undo_filed
  | redo => exact preserves_discard redo_filed
  | passIds count => exact modify_elsewhere_filed fun _ => ⟨rfl, rfl, rfl, rfl⟩

end Space

end BinaryAtlas
