import BinaryAtlas.Proofs.Mirror.Completeness
import BinaryAtlas.Proofs.Space.Scenes
import BinaryAtlas.Proofs.Types.Identity
import BinaryAtlas.Proofs.Types.Mentioning

/-!
What is told when the type of a name changes or goes: the name, and all that mentions it. Only to
rename a type is told of without those who mention its old name.
-/

set_option autoImplicit false

namespace BinaryAtlas

namespace ChangeEvent

/-- The event tells of the type of a name, or of a variable that mentions the name. -/
def isOfType (name : String) : ChangeEvent → Bool
  | typeDefined other _ | typeUndefined other _ | typeReferenceChanged other _ => other == name
  | _ => false

end ChangeEvent

namespace UndoAction

def isOfType (name : String) : UndoAction → Bool
  | type other _ _ => other == name
  | _ => false

end UndoAction

/-- What becomes of a record that is defined again. -/
theorem Table.define_held {K V : Type} [Ord K] [Std.TransOrd K] [Std.LawfulEqOrd K] [Provenance V]
    {table : Table K V} {key : K} {old : V} (held : table.get? key = some old) (value : V) :
    table.define key value = (table, .ignored) ∨
      (table.define key value = (table.insert key value, .unchanged old) ∧
        Provenance.sameValue old value = true) ∨
      table.define key value = (table.insert key value, .updated old) := by
  unfold define
  simp only [held]
  split
  · exact .inl rfl
  · split
    · exact .inr (.inl ⟨rfl, ‹_›⟩)
    · exact .inr (.inr rfl)

namespace Op

variable {α β : Type} {name : String}

/-- While those who listen only take note, nothing is told of a name, and its type stays. -/
def Spares (name : String) (op : Op α) : Prop :=
  ∀ s, (∀ scene ∈ op.scenes s, scene.1.isOfType name = false) ∧
    (op s).collect.2.2.metadata.types.get? name = s.metadata.types.get? name

theorem spares_pure (a : α) : Spares name (pure a : Op α) :=
  fun _ => ⟨fun _ member => (List.not_mem_nil member).elim, rfl⟩

theorem spares_read (f : Space → α) : Spares name (read f) :=
  fun _ => ⟨fun _ member => (List.not_mem_nil member).elim, rfl⟩

theorem spares_bind {op : Op α} {next : α → Op β} (first : Spares name op)
    (later : ∀ a, Spares name (next a)) : Spares name (op >>= next) := by
  intro s
  obtain ⟨told, kept⟩ := first s
  obtain ⟨told', kept'⟩ := later (op s).collect.2.1 (op s).collect.2.2
  rw [scenes_bind, collect_bind]
  exact ⟨List.forall_mem_append.2 ⟨told, told'⟩, kept'.trans kept⟩

theorem spares_update_bind {f : Space → Space × β} {next : β → Op α}
    (same : ∀ s, (f s).1.metadata.types.get? name = s.metadata.types.get? name)
    (later : ∀ s, Spares name (next (f s).2)) : Spares name (update f >>= next) := by
  intro s
  obtain ⟨told, kept⟩ := later s (f s).1
  exact ⟨told, kept.trans (same s)⟩

theorem spares_read_bind {f : Space → β} {next : β → Op α}
    (later : ∀ s, Spares name (next (f s))) : Spares name (read f >>= next) :=
  spares_update_bind (f := fun s => (s, f s)) (fun _ => rfl) later

theorem spares_modify {f : Space → Space}
    (same : ∀ s, (f s).metadata.types.get? name = s.metadata.types.get? name) :
    Spares name (modify f) :=
  fun s => ⟨fun _ member => (List.not_mem_nil member).elim, same s⟩

theorem spares_ite {condition : Prop} [Decidable condition] {op op' : Op α}
    (first : Spares name op) (second : Spares name op') :
    Spares name (if condition then op else op') := by
  split
  · exact first
  · exact second

theorem spares_discard {op : Op α} (spares : Spares name op) : Spares name (discard op) :=
  spares_bind spares fun _ => spares_pure ()

theorem spares_forEach {act : α → Op Unit} {items : List α}
    (each : ∀ item ∈ items, Spares name (act item)) : Spares name (forEach act items) := by
  induction items with
  | nil => exact spares_pure ()
  | cons first rest ih =>
    exact spares_bind (each first List.mem_cons_self) fun _ =>
      ih fun item member => each item (List.mem_cons_of_mem first member)

end Op

namespace Space

open Op

variable {name : String}

theorem tell_spares {event : ChangeEvent} (other : event.isOfType name = false) :
    Spares name (tell event) := by
  refine spares_bind (spares_bind (spares_read _) fun _ => spares_pure _) fun _ =>
    spares_ite (spares_modify fun _ => rfl) fun s => ⟨fun scene member => ?_, rfl⟩
  rw [List.mem_singleton.1 member]
  exact other

theorem emit_spares {events : List ChangeEvent}
    (others : ∀ event ∈ events, event.isOfType name = false) : Spares name (emit events) :=
  spares_bind (spares_forEach fun event member => tell_spares (others event member)) fun _ =>
    spares_bind (spares_read _) fun _ =>
      spares_ite (spares_modify fun _ => rfl) (spares_pure ())

theorem recordIf_spares (condition : Bool) (action : UndoAction) :
    Spares name (recordIf condition action) :=
  spares_ite (spares_modify fun _ => rfl) (spares_pure ())

theorem editMetadata_spares {f : Metadata → Metadata} (same : ∀ m, (f m).types = m.types) :
    Spares name (editMetadata f) :=
  spares_modify fun s => congrArg (·.get? name) (same s.metadata)

theorem told_spares {α : Type} (condition : Bool) (action : UndoAction) {event : ChangeEvent}
    (other : event.isOfType name = false) (answer : α) :
    Spares name (do recordIf condition action; emit [event]; pure answer : Op α) :=
  spares_bind (recordIf_spares condition action) fun _ => spares_bind
    (emit_spares (by simpa using other)) fun _ => spares_pure answer

theorem mentionEvents_plain {m : Metadata} {event : ChangeEvent}
    (member : event ∈ TypeLibrary.mentionEvents m name) : event.isAboutSymbol = false := by
  rcases (m.mentionEvents_owed name).others event member with ⟨a, rfl⟩ | ⟨owner, offset, rfl⟩
  · rfl
  · rfl

theorem mentionEvents_others {m : Metadata} {named : String} (apart : named ≠ name)
    {event : ChangeEvent} (member : event ∈ TypeLibrary.mentionEvents m named) :
    event.isOfType name = false := by
  rcases (m.mentionEvents_owed named).others event member with ⟨a, rfl⟩ | ⟨owner, offset, rfl⟩
  · simpa [ChangeEvent.isOfType] using apart
  · rfl

section Actions

theorem write_spares (a : Word) (data : List UInt8) : Spares name (write a data) :=
  spares_ite (spares_pure 0) <| spares_bind (spares_read _) fun _ =>
    spares_update_bind (fun _ => rfl) fun _ => spares_ite (spares_pure 0) (told_spares true _ rfl _)

theorem insert_spares (a : Word) (data : List UInt8) : Spares name (insert a data) :=
  spares_ite (spares_pure 0) <| spares_update_bind (fun _ => rfl) fun _ =>
    spares_ite (spares_pure 0) (told_spares true _ rfl _)

theorem remove_spares (a length : Word) : Spares name (remove a length) :=
  spares_ite (spares_pure 0) <| spares_bind (spares_read _) fun _ =>
    spares_update_bind (fun _ => rfl) fun _ => spares_ite (spares_pure 0) (told_spares true _ rfl _)

/-- What is told of a record that comes, goes or changes. -/
theorem transition_others {α : Type} [DecidableEq α] {added removed updated : α → ChangeEvent}
    (came : ∀ a, (added a).isOfType name = false) (went : ∀ a, (removed a).isOfType name = false)
    (changed : ∀ a, (updated a).isOfType name = false) (before after : Option α) :
    ∀ event ∈ transition added removed updated before after, event.isOfType name = false := by
  unfold transition
  split
  · simpa using came _
  · simpa using went _
  · split
    · simp
    · simpa using changed _
  · simp

theorem gone_others {α : Type} {removed : α → ChangeEvent}
    (went : ∀ a, (removed a).isOfType name = false) (before : Option α) {others : List ChangeEvent}
    (rest : ∀ event ∈ others, event.isOfType name = false) :
    ∀ event ∈ before.toList.map removed ++ others, event.isOfType name = false := by
  refine List.forall_mem_append.2 ⟨fun event member => ?_, rest⟩
  obtain ⟨a, -, rfl⟩ := List.mem_map.1 member
  exact went a

theorem restoreSegment_spares (start : Word) (state : Option Segment) :
    Spares name (restoreSegment start state) := by
  refine spares_update_bind (fun s => ?_) fun s => emit_spares ?_
  · dsimp only
    cases state with
    | none => rfl
    | some segment =>
      dsimp only
      split <;> rfl
  · dsimp only
    cases state with
    | none => simpa using gone_others (fun _ => rfl) _ (List.forall_mem_nil _)
    | some segment =>
      dsimp only
      split
      · exact gone_others (fun _ => rfl) _ (by simp [ChangeEvent.isOfType])
      · simpa using gone_others (fun _ => rfl) _ (List.forall_mem_nil _)

theorem restoreSection_spares (title : String) (state : Option Section) :
    Spares name (restoreSection title state) := by
  cases state with
  | none =>
    refine spares_update_bind (fun _ => rfl) fun s => emit_spares ?_
    simpa using gone_others (fun _ => rfl) _ (List.forall_mem_nil _)
  | some restored =>
    exact spares_update_bind (fun _ => rfl) fun s => emit_spares <|
      gone_others (fun _ => rfl) _ (by simp [ChangeEvent.isOfType])

theorem restoreVariable_spares (a : Word) (state : Option DataVariable) :
    Spares name (restoreVariable a state) :=
  spares_bind (spares_read _) fun _ => spares_bind (editMetadata_spares fun _ => rfl) fun _ =>
    emit_spares (transition_others (fun _ => rfl) (fun _ => rfl) (fun _ => rfl) _ _)

theorem restoreSymbol_spares (key : SymbolKey) (state : Option Symbol) :
    Spares name (restoreSymbol key state) :=
  spares_bind (spares_read _) fun _ => spares_bind (editMetadata_spares fun _ => rfl) fun _ =>
    emit_spares (transition_others (fun _ => rfl) (fun _ => rfl) (fun _ => rfl) _ _)

theorem restoreTag_spares (key : TagKey) (state : Option TagReference) :
    Spares name (restoreTag key state) :=
  spares_bind (spares_read _) fun _ => spares_bind (editMetadata_spares fun _ => rfl) fun _ =>
    emit_spares (transition_others (fun _ => rfl) (fun _ => rfl) (fun _ => rfl) _ _)

theorem setComment_spares (a : Word) (text : String) : Spares name (setComment a text) :=
  spares_bind (spares_read _) fun _ => spares_bind (editMetadata_spares fun _ => rfl) fun _ =>
    spares_ite (spares_pure ()) <| spares_bind (recordIf_spares true _) fun _ =>
      emit_spares (by simp [ChangeEvent.isOfType])

theorem restoreValue_spares (key : String) (state : Option Json) :
    Spares name (restoreValue key state) := by
  cases state with
  | none =>
    refine spares_discard (spares_bind (spares_read _) fun before => ?_)
    cases before with
    | none => exact spares_pure false
    | some value =>
      exact spares_bind (editMetadata_spares fun _ => rfl) fun _ => told_spares _ _ rfl _
  | some value =>
    exact spares_bind (spares_read _) fun _ => spares_bind (editMetadata_spares fun _ => rfl)
      fun _ => spares_ite (spares_pure ()) <| spares_bind (recordIf_spares _ _) fun _ =>
        emit_spares (by simp [ChangeEvent.isOfType])

theorem createUserFunction_spares (a : Word) : Spares name (createUserFunction a) := by
  have told (event : ChangeEvent) (other : event.isOfType name = false) : Spares name (do
      record (.function a false true)
      editScheduler (·.noteSubmit a)
      emit [event]
      pure true : Op Bool) :=
    spares_bind (recordIf_spares true _) fun _ => spares_bind (spares_modify fun _ => rfl) fun _ =>
      spares_bind (emit_spares (by simpa using other)) fun _ => spares_pure true
  refine spares_bind (spares_read _) fun _ => spares_ite (spares_pure false) <|
    spares_bind (spares_read _) fun known => ?_
  cases known with
  | none => exact spares_bind (spares_modify fun _ => rfl) fun _ => told _ rfl
  | some f =>
    exact spares_ite (spares_pure false) <| spares_bind (spares_modify fun _ => rfl) fun _ =>
      told _ rfl

theorem replaceReferences_spares (ranges : List AddressRange) (found : List ReferenceKey) :
    Spares name (replaceReferences ranges found) :=
  editMetadata_spares fun m =>
    have removed (stale : List ReferenceKey) : m.SameRecords (stale.foldl (·.removeReference) m) :=
      .foldl (fun m key => m.removeReference_same key) stale m
    ((removed _).trans (.foldl (fun m key => m.addReference_same key _) found _)).types

theorem removeFunction_spares (a : Word) (auto : Bool) : Spares name (removeFunction a auto) := by
  refine spares_bind (spares_read _) fun known => ?_
  cases known with
  | none => exact spares_pure false
  | some f =>
    exact spares_ite (spares_pure false) <| spares_bind (spares_modify fun _ => rfl) fun _ =>
      spares_bind (replaceReferences_spares _ _) fun _ => told_spares _ _ rfl _

theorem addReference_spares (source target : Word) : Spares name (addReference source target) :=
  spares_bind (spares_read _) fun _ => spares_ite (spares_pure false) <|
    spares_bind (editMetadata_spares fun _ => rfl) fun _ =>
      spares_bind (recordIf_spares true _) fun _ => spares_pure true

theorem removeReference_spares (source target : Word) :
    Spares name (removeReference source target) :=
  spares_bind (spares_read _) fun _ => spares_ite (spares_pure false) <|
    spares_bind (editMetadata_spares fun _ => rfl) fun _ =>
      spares_bind (recordIf_spares true _) fun _ => spares_pure true

theorem restoreType_spares {named : String} (apart : named ≠ name) (state : Option TypeRecord) :
    Spares name (restoreType named state) := by
  have defined (type : DataType) : (ChangeEvent.typeDefined named type).isOfType name = false := by
    simpa [ChangeEvent.isOfType] using apart
  have undefined (type : DataType) :
      (ChangeEvent.typeUndefined named type).isOfType name = false := by
    simpa [ChangeEvent.isOfType] using apart
  refine spares_bind (spares_read _) fun before => spares_bind
    (spares_modify fun s => by simp [Table.get?_alter, apart.symm]) fun _ =>
      spares_read_bind fun s => ?_
  have mentions {event : ChangeEvent}
      (member : event ∈ TypeLibrary.mentionEvents s.metadata named) :
      event.isOfType name = false := mentionEvents_others apart member
  cases before with
  | none =>
    cases state with
    | none => exact emit_spares (List.forall_mem_nil _)
    | some new => exact emit_spares (by simpa using defined new.type)
  | some old =>
    cases state with
    | none => exact emit_spares (List.forall_mem_cons.2 ⟨undefined old.type, fun _ => mentions⟩)
    | some new =>
      exact spares_ite (emit_spares (List.forall_mem_nil _))
        (emit_spares (List.forall_mem_cons.2 ⟨defined new.type, fun _ => mentions⟩))

theorem redoAction_spares {action : UndoAction} (other : action.isOfType name = false) :
    Spares name (redoAction action) := by
  cases action with
  | write a before after => exact spares_discard (write_spares a after)
  | insert a bytes => exact spares_discard (insert_spares a bytes)
  | remove a bytes => exact spares_discard (remove_spares a _)
  | segment start before after => exact restoreSegment_spares start after
  | «section» title before after => exact restoreSection_spares title after
  | «variable» a before after => exact restoreVariable_spares a after
  | symbol key before after => exact restoreSymbol_spares key after
  | type named before after =>
    exact restoreType_spares (by simpa [UndoAction.isOfType] using other) after
  | comment a before after => exact setComment_spares a _
  | value key before after => exact restoreValue_spares key after
  | function a before after =>
    exact spares_ite (spares_discard (createUserFunction_spares a))
      (spares_discard (removeFunction_spares a false))
  | tag key before after => exact restoreTag_spares key after
  | reference source target before after =>
    exact spares_ite (spares_discard (addReference_spares source target))
      (spares_discard (removeReference_spares source target))

end Actions

section Changes

/-- The news of a name whose type was another one. -/
def newsOf (m : Metadata) (name : String) (old : DataType) : ChangeEvent :=
  ((m.types.get? name).map fun r => ChangeEvent.typeDefined name r.type).getD
    (.typeUndefined name old)

/-- What is told when the type of a name changed, all with the same tables to look at. -/
def announcement (m : Metadata) (name : String) (old : DataType) :
    List (ChangeEvent × Metadata) :=
  (newsOf m name old :: TypeLibrary.mentionEvents m name).map (·, m)

/-- The type of a name is still the old one, or its change and what is owed for it has been told,
and nothing else. -/
def Announced (name : String) (old : DataType)
    (shown : List (ChangeEvent × Metadata) × Metadata) : Prop :=
  (shown.2.types.get? name).map (·.type) = some old ∨ shown.1 = announcement shown.2 name old

theorem newsOf_plain (m : Metadata) (old : DataType) :
    ∀ event ∈ newsOf m name old :: TypeLibrary.mentionEvents m name,
      event.isAboutSymbol = false := by
  refine List.forall_mem_cons.2 ⟨?_, fun _ => mentionEvents_plain⟩
  unfold newsOf
  cases m.types.get? name <;> rfl

theorem newsOf_defined {m : Metadata} {r : TypeRecord} (held : m.types.get? name = some r)
    (old : DataType) : newsOf m name old = .typeDefined name r.type := by
  rw [newsOf, held]
  rfl

theorem newsOf_undefined {m : Metadata} (absent : m.types.get? name = none) (old : DataType) :
    newsOf m name old = .typeUndefined name old := by
  rw [newsOf, absent]
  rfl

theorem countP_announcement (m : Metadata) (old : DataType) (a : Word) :
    (announcement m name old).countP (·.1 = .typeReferenceChanged name a) =
      m.dataVariables.values.countP fun v => v.address = a ∧ v.type.Involves name := by
  have other : newsOf m name old ≠ .typeReferenceChanged name a := by
    unfold newsOf
    cases m.types.get? name <;> simp
  rw [announcement, List.countP_map, ← (m.mentionEvents_owed name).toVariables a]
  exact (List.countP_cons_of_neg (by simpa using other)).trans
    (List.countP_congr fun event _ => by simp)

variable {s : Space} {old : TypeRecord}

theorem announced_of_same {scenes : List (ChangeEvent × Metadata)} {m : Metadata} {r : TypeRecord}
    {old : DataType} (held : m.types.get? name = some r) (same : r.type = old) :
    Announced name old (scenes, m) :=
  .inl (by rw [held, Option.map_some, same])

theorem emit_announced {old : DataType} {event : ChangeEvent}
    (news : newsOf s.metadata name old = event) :
    Announced name old
      ((emit (event :: TypeLibrary.mentionEvents s.metadata name)).shown s) := by
  subst news
  rw [shown_emit (newsOf_plain s.metadata old)]
  exact .inr rfl

theorem restoreType_announced (held : s.metadata.types.get? name = some old)
    (state : Option TypeRecord) : Announced name old.type ((restoreType name state).shown s) := by
  have restored : (s.metadata.types.alter name fun _ => state).get? name = state := by
    simp [Table.get?_alter]
  unfold restoreType
  simp only [Op.shown_read_bind, editMetadata, Op.shown_modify_bind, held]
  cases state with
  | none => exact emit_announced (newsOf_undefined restored old.type)
  | some new =>
    dsimp only
    split
    · rename_i same
      rw [shown_emit (List.forall_mem_nil _)]
      exact announced_of_same restored same.symm
    · exact emit_announced (newsOf_defined restored old.type)

theorem undefineType_announced (held : s.metadata.types.get? name = some old) (given : String)
    (auto : Bool) : Announced name old.type ((undefineType given auto).shown s) := by
  unfold undefineType
  simp only [Op.shown_update_bind]
  cases removed : (s.metadata.types.undefine given auto).2 with
  | none =>
    rw [Table.undefine_eq_none removed]
    exact announced_of_same held rfl
  | some r =>
    obtain ⟨known, left⟩ := Table.undefine_eq_some removed
    have told (m : Metadata) : ∀ event ∈ ChangeEvent.typeUndefined given r.type ::
        TypeLibrary.mentionEvents m given, event.isAboutSymbol = false :=
      List.forall_mem_cons.2 ⟨rfl, fun _ => mentionEvents_plain⟩
    simp only [Op.shown_read_bind, shown_recordIf_bind, Op.shown_bind_pure, left]
    by_cases same : name = given
    · subst same
      obtain rfl : old = r := Option.some_inj.1 (held.symm.trans known)
      exact emit_announced (newsOf_undefined (Table.get?_erase_self _ _) old.type)
    · rw [shown_emit (told _)]
      exact announced_of_same ((Table.get?_erase_of_ne _ same).trans held) rfl

theorem defineType_elsewhere {given : String} {qualified : QualifiedName}
    (parsed : QualifiedName.parse given = .ok qualified) (apart : name ≠ qualified.text)
    (type : DataType) (auto : Bool) :
    ((defineType given type auto).shown s).2.types.get? name = s.metadata.types.get? name := by
  cases auto with
  | false =>
    rw [Op.shown, (defineType_settles s type parsed rfl).types]
    exact (Table.get?_alter ..).trans (if_neg apart)
  | true =>
    rw [Op.shown, (defineType_auto_settles s type parsed).types]
    dsimp only
    split
    · rfl
    · exact (Table.get?_alter ..).trans (if_neg apart)

theorem defineType_announced (held : s.metadata.types.get? name = some old) (given : String)
    (type : DataType) (auto : Bool) :
    Announced name old.type ((defineType given type auto).shown s) := by
  cases parsed : QualifiedName.parse given with
  | error e =>
    simp only [defineType, parsed]
    exact announced_of_same held rfl
  | ok qualified =>
    -- The definition may be of another name than the one asked about.
    by_cases same : name = qualified.text
    · have inserted (r : TypeRecord) : (s.metadata.types.insert name r).get? name = some r :=
        Table.get?_insert_self ..
      simp only [defineType, parsed, ← same, Op.shown_read_bind, held, Op.shown_pure_bind,
        Op.shown_update_bind, shown_recordIf_bind]
      rcases Table.define_held held ⟨old.id, type, auto⟩ with
        ignored | ⟨unchanged, agrees⟩ | updated
      · simp only [ignored]
        exact announced_of_same held rfl
      · simp only [unchanged, Op.shown_bind_pure, shown_emit (List.forall_mem_nil _)]
        exact announced_of_same (inserted _) (eq_of_beq agrees).symm
      · simp only [updated, Op.shown_read_bind, Op.shown_bind_pure]
        exact emit_announced (newsOf_defined (r := ⟨old.id, type, auto⟩) (inserted _) old.type)
    · exact .inl (by rw [defineType_elsewhere parsed same, held, Option.map_some])

/-- Of a renaming only the two names are told. -/
theorem renameType_shown (s : Space) (given new : String) :
    (renameType given new).shown s = ([], s.metadata) ∨
    ∃ qualified r, QualifiedName.parse new = .ok qualified ∧
      s.metadata.types.get? given = some r ∧
      s.metadata.types.get? qualified.text = none ∧
      let m := { s.metadata with
        types := (s.metadata.types.erase given).insert qualified.text r }
      (renameType given new).shown s =
        ([(.typeUndefined given r.type, m), (.typeDefined qualified.text r.type, m)], m) := by
  unfold renameType
  cases parsed : QualifiedName.parse new with
  | error e => exact .inl rfl
  | ok qualified =>
    simp only [Op.shown_read_bind]
    cases free : s.metadata.types.contains qualified.text with
    | true => exact .inl rfl
    | false =>
      cases held : s.metadata.types.get? given with
      | none => exact .inl rfl
      | some r =>
        have told : ∀ event ∈ [ChangeEvent.typeUndefined given r.type,
            .typeDefined qualified.text r.type], event.isAboutSymbol = false := by
          simp [ChangeEvent.isAboutSymbol]
        refine .inr ⟨qualified, r, rfl, rfl, by simpa [Table.contains] using free, ?_⟩
        simp only [Bool.false_eq_true, if_false, editMetadata, Op.shown_modify_bind]
        split <;> simp [shown_emit told]

end Changes

section Replaying

/-- The news of a name and then all that is owed for it come in one stretch, with the tables `m` to
look at; nothing else is told of the name. -/
def TellsOf (m : Metadata) (name : String) (old : DataType)
    (scenes : List (ChangeEvent × Metadata)) : Prop :=
  ∃ earlier mentions later,
    scenes = earlier ++ (newsOf m name old :: mentions).map (·, m) ++ later ∧
    m.Owed name mentions ∧ ∀ scene ∈ earlier ++ later, scene.1.isOfType name = false

theorem tellsOf_announcement (m : Metadata) (name : String) (old : DataType) :
    TellsOf m name old (announcement m name old) :=
  ⟨[], _, [], (List.append_nil _).symm, m.mentionEvents_owed name, List.forall_mem_nil _⟩

/-- Somewhere on the way all is told of the name that there is to tell, with the tables as they are
at the end, as far as the name goes, and as they are altogether if nothing else happens. -/
def Tells (name : String) (old : DataType) (alone : Prop)
    (shown : List (ChangeEvent × Metadata) × Metadata) : Prop :=
  ∃ m, m.types.get? name = shown.2.types.get? name ∧ TellsOf m name old shown.1 ∧
    (alone → m = shown.2)

theorem Announced.tells {shown : List (ChangeEvent × Metadata) × Metadata} {old : DataType}
    (announced : Announced name old shown)
    (changed : (shown.2.types.get? name).map (·.type) ≠ some old) (alone : Prop) :
    Tells name old alone shown := by
  rcases announced with same | told
  · exact (changed same).elim
  · exact ⟨shown.2, rfl, told ▸ tellsOf_announcement shown.2 name old, fun _ => rfl⟩

/-- Of all that is replayed, one action alone is about the name: what comes before it leaves the
type alone, and so does what comes after it. -/
theorem replay_tells {s : Space} {old : TypeRecord} {actions : List UndoAction}
    (held : s.metadata.types.get? name = some old)
    (once : actions.countP (·.isOfType name) ≤ 1) :
    let shown := (Op.forEach redoAction actions).shown s
    (shown.2.types.get? name).map (·.type) ≠ some old.type →
    Tells name old.type (actions.length ≤ 1) shown := by
  intro shown changed
  have spared {others : List UndoAction}
      (none_of : ∀ action ∈ others, action.isOfType name = false) :
      Spares name (Op.forEach redoAction others) :=
    spares_forEach fun action member => redoAction_spares (none_of action member)
  by_cases some_of : ∃ action ∈ actions, action.isOfType name = true
  · obtain ⟨action, member, about⟩ := some_of
    obtain ⟨front, back, rfl⟩ := List.append_of_mem member
    have counted : front.countP (·.isOfType name) = 0 ∧ back.countP (·.isOfType name) = 0 := by
      simp only [List.countP_append, List.countP_cons, about, if_true] at once
      omega
    -- Up to the one action the name still has its old type, and after it the new one stays.
    obtain ⟨told, kept⟩ := spared (fun a among => by
      simpa using List.countP_eq_zero.1 counted.1 a among) s
    cases action with
    | type named before state =>
      obtain rfl : named = name := by simpa [UndoAction.isOfType] using about
      let middle := (Op.forEach redoAction front s).collect.2.2
      let turned := (restoreType named state middle).collect.2.2
      obtain ⟨told', kept'⟩ := spared (fun a among => by
        simpa using List.countP_eq_zero.1 counted.2 a among) turned
      have scenes : shown.1 = (Op.forEach redoAction front).scenes s ++
          ((restoreType named state).scenes middle ++ (Op.forEach redoAction back).scenes turned) :=
        (Op.scenes_forEach_append redoAction front _ s).trans
          (congrArg _ (Op.scenes_bind _ (fun _ => Op.forEach redoAction back) middle))
      have last : shown.2 = (Op.forEach redoAction back turned).collect.2.2.metadata :=
        congrArg (·.metadata) <| (Op.collect_forEach_append redoAction front _ s).trans
          (congrArg Prod.snd (Op.collect_bind _ (fun _ => Op.forEach redoAction back) middle))
      rw [last, kept'] at changed
      rcases restoreType_announced (kept.trans held) state with same | news
      · exact (changed same).elim
      · refine ⟨turned.metadata, (congrArg (·.types.get? named) last).symm ▸ kept'.symm, ?_, ?_⟩
        · refine ⟨_, _, _, ?_, turned.metadata.mentionEvents_owed named,
            List.forall_mem_append.2 ⟨told, told'⟩⟩
          have news : (restoreType named state).scenes middle =
            announcement turned.metadata named old.type := news
          rw [scenes, news, announcement, List.append_assoc]
        · intro short
          have nothing : back = [] := by
            rw [List.length_append, List.length_cons] at short
            exact List.eq_nil_of_length_eq_zero (by omega)
          rw [last, nothing]
          rfl
    | _ => cases about
  · refine (changed ?_).elim
    obtain ⟨-, kept⟩ := spared (fun a among => by
      simpa using fun about => some_of ⟨a, among, about⟩) s
    exact congrArg (·.map (·.type)) (kept.trans held)

theorem replayed_tells {s : Space} {old : TypeRecord} {actions : List UndoAction}
    {shown : List (ChangeEvent × Metadata) × Metadata}
    (held : s.metadata.types.get? name = some old)
    (once : actions.countP (·.isOfType name) ≤ 1)
    (replayed : shown = ([], s.metadata) ∨
      ∃ log, shown = (Op.forEach redoAction actions).shown { s with undoLog := log })
    (changed : (shown.2.types.get? name).map (·.type) ≠ some old.type) :
    Tells name old.type (actions.length ≤ 1) shown := by
  rcases replayed with rfl | ⟨log, rfl⟩
  · exact (changed (by rw [held, Option.map_some])).elim
  · exact replay_tells held once changed

end Replaying

end Space

namespace TypeEdit

open Space

/-- The actions that an edit takes back or does again. -/
def replays (s : Space) : TypeEdit → List UndoAction
  | undo => (s.undoLog.past.head?.getD []).reverse.map Space.inverse
  | redo => s.undoLog.future.head?.getD []
  | _ => []

variable {s : Space} {name : String} {old : TypeRecord}

theorem undo_shown (s : Space) : Space.undo.shown s = ([], s.metadata) ∨
    ∃ log, Space.undo.shown s =
      (Op.forEach redoAction (undo.replays s)).shown { s with undoLog := log } := by
  by_cases refused : s.undoLog.inGroup = true ∨ s.undoLog.past = []
  · left
    rw [Space.undo, Op.shown_read_bind]
    cases grouped : s.undoLog.inGroup with
    | true => rfl
    | false =>
      have nothing : s.undoLog.past = [] := by simpa [grouped] using refused
      simp only [UndoLog.popUndo, nothing]
      rfl
  · obtain ⟨entry, earlier, outside, latest⟩ := undo_admitted refused
    refine .inr ⟨{ s.undoLog with past := earlier, replaying := true }, ?_⟩
    rw [Space.undo, Op.shown_read_bind]
    simp only [outside, UndoLog.popUndo, latest, replays, Bool.false_eq_true, if_false,
      List.head?_cons, Option.getD_some, editUndoLog, Op.shown_modify_bind]
    rw [Op.forEach_map]
    exact Op.shown_bind_quiet (fun _ _ => rfl) _

theorem redo_shown (s : Space) : Space.redo.shown s = ([], s.metadata) ∨
    ∃ log, Space.redo.shown s =
      (Op.forEach redoAction (redo.replays s)).shown { s with undoLog := log } := by
  by_cases refused : s.undoLog.inGroup = true ∨ s.undoLog.future = []
  · left
    rw [Space.redo, Op.shown_read_bind]
    cases grouped : s.undoLog.inGroup with
    | true => rfl
    | false =>
      have nothing : s.undoLog.future = [] := by simpa [grouped] using refused
      simp only [UndoLog.popRedo, nothing]
      rfl
  · obtain ⟨entry, later, outside, next⟩ := redo_admitted refused
    refine .inr ⟨{ s.undoLog with future := later, replaying := true }, ?_⟩
    rw [Space.redo, Op.shown_read_bind]
    simp only [outside, UndoLog.popRedo, next, replays, Bool.false_eq_true, if_false,
      List.head?_cons, Option.getD_some, editUndoLog, Op.shown_modify_bind]
    exact Op.shown_bind_quiet (fun _ _ => rfl) _

end TypeEdit

namespace Space

variable {s : Space} {name : String} {old : TypeRecord}

/-- Whenever the type of a name changes or goes, all that mentions the name is told, once each,
right after the name itself. Only a renaming tells of its two names and of nothing else. -/
theorem changed_type_told (edit : TypeEdit) (held : s.metadata.types.get? name = some old)
    (once : (edit.replays s).countP (·.isOfType name) ≤ 1)
    (changed : ((edit.run.shown s).2.types.get? name).map (·.type) ≠ some old.type) :
    ((∀ new, edit ≠ .rename name new) →
      Tells name old.type ((edit.replays s).length ≤ 1) (edit.run.shown s)) ∧
    ∀ new, edit = .rename name new → ∃ qualified m, QualifiedName.parse new = .ok qualified ∧
      edit.run.shown s = ([(.typeUndefined name old.type, m),
        (.typeDefined qualified.text old.type, m)], m) := by
  have unchanged {shown : List (ChangeEvent × Metadata) × Metadata}
      (same : shown.2.types.get? name = some old) :
      ¬ (shown.2.types.get? name).map (·.type) ≠ some old.type := by simp [same]
  cases edit with
  | define given type auto =>
    have run : (TypeEdit.define given type auto).run.shown s = _ := Op.shown_bind_pure _ _ s
    rw [run] at changed ⊢
    exact ⟨fun _ => (defineType_announced held given type auto).tells changed _, by rintro _ ⟨⟩⟩
  | undefine given auto =>
    have run : (TypeEdit.undefine given auto).run.shown s = _ := Op.shown_bind_pure _ _ s
    rw [run] at changed ⊢
    exact ⟨fun _ => (undefineType_announced held given auto).tells changed _, by rintro _ ⟨⟩⟩
  | rename given new =>
    have run : (TypeEdit.rename given new).run.shown s = _ := Op.shown_bind_pure _ _ s
    rw [run] at changed ⊢
    rcases renameType_shown s given new with refused | ⟨qualified, r, parsed, known, free, renamed⟩
    · rw [refused] at changed
      exact (unchanged held changed).elim
    · rw [renamed] at changed ⊢
      have apart : name ≠ qualified.text := by
        rintro rfl
        rw [held] at free
        cases free
      by_cases here : given = name
      · subst here
        obtain rfl : old = r := Option.some_inj.1 (held.symm.trans known)
        exact ⟨fun other => (other new rfl).elim, by
          rintro _ ⟨⟩
          exact ⟨qualified, _, parsed, rfl⟩⟩
      · refine (unchanged ?_ changed).elim
        exact (Table.get?_insert_of_ne _ _ apart).trans
          ((Table.get?_erase_of_ne _ (Ne.symm here)).trans held)
  | undo =>
    have run : TypeEdit.undo.run.shown s = _ := Op.shown_bind_pure _ _ s
    rw [run] at changed ⊢
    refine ⟨fun _ => ?_, by rintro _ ⟨⟩⟩
    exact replayed_tells held once (TypeEdit.undo_shown s) changed
  | redo =>
    have run : TypeEdit.redo.run.shown s = _ := Op.shown_bind_pure _ _ s
    rw [run] at changed ⊢
    refine ⟨fun _ => ?_, by rintro _ ⟨⟩⟩
    exact replayed_tells held once (TypeEdit.redo_shown s) changed

/-- A type that a variable, a member of a stored structure and another type mention has got another
width. -/
def pointSpace : Space :=
  emptySpace.afterwards [.defineType "point" (.integer 4 true) false,
    .defineType "line" (.packed none
      [("first", .named "point" 4), ("size", .bool), ("last", .pointer (.named "point" 4) 8)]) false,
    .defineType "points" (.array (.named "point" 4) 2) true,
    .defineVariable ⟨2, .array (.pointer (.named "point" 4) 8) 3, true⟩,
    .defineType "point" (.integer 8 true) false]

theorem pointSpace_reachable : Reachable pointSpace :=
  afterwards_reachable emptySpace_reachable (by decide +kernel)

theorem taken_back_type_told :
    pointSpace.metadata.types.get? "point" = some ⟨.fresh 0, .integer 8 true, false⟩ ∧
      (TypeEdit.undo.replays pointSpace).length = 1 ∧
      ((TypeEdit.undo.run.shown pointSpace).2.types.get? "point").map (·.type) =
        some (.integer 4 true) ∧
      Tells "point" (.integer 8 true) ((TypeEdit.undo.replays pointSpace).length ≤ 1)
        (TypeEdit.undo.run.shown pointSpace) := by
  have held : pointSpace.metadata.types.get? "point" =
      some ⟨.fresh 0, .integer 8 true, false⟩ := by decide +kernel
  have back : ((TypeEdit.undo.run.shown pointSpace).2.types.get? "point").map (·.type) =
      some (.integer 4 true) := by decide +kernel
  have alone : (TypeEdit.undo.replays pointSpace).length = 1 := by decide +kernel
  refine ⟨held, alone, back, (changed_type_told .undo held ?_ ?_).1 (by rintro _ ⟨⟩)⟩
  · exact List.countP_le_length.trans (Nat.le_of_eq alone)
  · rw [back]
    decide

example : (TypeEdit.undo.run.scenes pointSpace).map (·.1) =
    [.typeDefined "point" (.integer 4 true), .typeReferenceChanged "point" 2,
      .typeFieldReferenceChanged "line" 0, .typeFieldReferenceChanged "line" 5] := by
  decide +kernel

/-- A variable mentions a name whose type is renamed. Nobody is told that what it mentions is
gone. -/
theorem renamed_type_untold :
    let shown := (TypeEdit.rename "point" "pixel").run.shown pointSpace
    pointSpace.Reachable ∧ (pointSpace.metadata.types.get? "point").isSome ∧
      shown.2.types.get? "point" = none ∧
      shown.2.dataVariables.values.countP
        (fun v => v.address = 2 ∧ v.type.Involves "point") = 1 ∧
      shown.1.countP (·.1 = .typeReferenceChanged "point" 2) = 0 :=
  ⟨pointSpace_reachable, by decide +kernel⟩

end Space

end BinaryAtlas
