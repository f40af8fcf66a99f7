import BinaryAtlas.Proofs.Mirror.Records

/-!
How types are told, with those that mention them.
-/

set_option autoImplicit false

namespace BinaryAtlas

namespace Space

open Op

variable {s : Space}

section Types

theorem hearAll_mentions (m : Mirror) (metadata : Metadata) (name : String) :
    m.hearAll (TypeLibrary.mentionEvents metadata name) = m := by
  refine Mirror.hearAll_silent (fun e member m => ?_) m
  rcases List.mem_append.1 member with mention | mention
  · obtain ⟨a, -, rfl⟩ := List.mem_map.1 mention
    rfl
  · obtain ⟨⟨owner, offset⟩, -, rfl⟩ := List.mem_map.1 mention
    rfl

theorem hearAll_cons_mentions (m : Mirror) (e : ChangeEvent) (metadata : Metadata) (name : String) :
    m.hearAll (e :: TypeLibrary.mentionEvents metadata name) = m.hear e :=
  hearAll_mentions (m.hear e) metadata name

theorem withTypes_keyed (keyed : s.Keyed) (t : Table String TypeRecord) :
    Keyed { s with metadata := { s.metadata with types := t } } :=
  withMetadata_keyed keyed { keyed.metadata with }

theorem definedType_mirrored (name : String) (type : DataType) (auto : Bool) (id : Uuid) :
    Mirrored (do
      let record : TypeRecord := ⟨id, type, auto⟩
      let outcome ← Op.update fun s =>
        let (types, outcome) := s.metadata.types.define name record
        ({ s with metadata := { s.metadata with types := types } }, outcome)
      recordIf (!auto && !outcome.isIgnored) (.type name outcome.before? (some record))
      match outcome with
      | .added => emit [.typeDefined name type]
      | .updated _ =>
        emit (.typeDefined name type ::
          (← Op.read fun s => TypeLibrary.mentionEvents s.metadata name))
      | .unchanged _ => emit []
      | .ignored => pure ()
      pure (.ok id) : Op (Except AtlasError Uuid)) := by
  intro s keyed
  have news : (s.metadata.types.define name ⟨id, type, auto⟩).2.isNews = true →
      { s.mirror with types := s.mirror.types.insert name type } =
        { s.mirror with types := (s.metadata.types.define name
          ⟨id, type, auto⟩).1.mapValues fun _ => TypeRecord.type } := by
    intro news
    rw [Table.define_news news, Table.mapValues_insert]
    rfl
  have old : (s.metadata.types.define name ⟨id, type, auto⟩).2.isNews = false →
      s.mirror = { s.mirror with types :=
        (s.metadata.types.define name ⟨id, type, auto⟩).1.mapValues fun _ => TypeRecord.type } := by
    intro old
    rw [Table.define_old (fun before _ same => eq_of_beq same) old]
    rfl
  refine leads_update_bind rfl (recordIf_bind_leads ?_)
  generalize s.metadata.types.define name ⟨id, type, auto⟩ = defined at news old ⊢
  obtain ⟨known, outcome⟩ := defined
  have noted := noted_keyed (withTypes_keyed keyed known) (!auto && !outcome.isIgnored)
    (show (UndoAction.type name outcome.before? (some ⟨id, type, auto⟩)).Keyed from trivial)
  cases outcome with
  | added => exact follows_bind (emit_follows noted (news rfl)) fun _ => mirrored_pure _
  | updated before =>
    exact leads_read_bind (follows_bind (emit_follows noted
      ((hearAll_cons_mentions _ _ _ _).trans (news rfl))) fun _ => mirrored_pure _)
  | unchanged before => exact follows_bind (emit_follows noted (old rfl)) fun _ => mirrored_pure _
  | ignored => exact leads_pure ⟨noted, old rfl⟩

theorem defineType_mirrored (name : String) (type : DataType) (auto : Bool) :
    Mirrored (defineType name type auto) := by
  unfold defineType
  cases QualifiedName.parse name with
  | error e => exact mirrored_pure _
  | ok qualified =>
    refine mirrored_bind (mirrored_read _) fun before => ?_
    cases before
    · exact mirrored_bind freshId_mirrored (definedType_mirrored qualified.text type auto)
    · exact mirrored_bind (mirrored_pure _) (definedType_mirrored qualified.text type auto)

theorem undefineType_mirrored (name : String) (auto : Bool) :
    Mirrored (undefineType name auto) := by
  intro s keyed
  have gone (record : TypeRecord) : (s.metadata.types.undefine name auto).2 = some record →
      { s.mirror with types := s.mirror.types.erase name } =
        { s.mirror with types :=
          (s.metadata.types.undefine name auto).1.mapValues fun _ => TypeRecord.type } := by
    intro removed
    rw [(Table.undefine_eq_some removed).2, Table.mapValues_erase]
    rfl
  have kept : (s.metadata.types.undefine name auto).2 = none →
      s.mirror = { s.mirror with types :=
        (s.metadata.types.undefine name auto).1.mapValues fun _ => TypeRecord.type } := by
    intro removed
    rw [Table.undefine_eq_none removed]
    rfl
  refine leads_update_bind rfl ?_
  generalize s.metadata.types.undefine name auto = undefined at gone kept ⊢
  obtain ⟨known, removed⟩ := undefined
  cases removed with
  | none => exact leads_pure ⟨withTypes_keyed keyed known, kept rfl⟩
  | some record =>
    refine leads_read_bind (told_follows (withTypes_keyed keyed known) ?_ ?_ true)
    · trivial
    · exact (hearAll_cons_mentions _ _ _ _).trans (gone record rfl)

theorem renameType_mirrored (old new : String) : Mirrored (renameType old new) := by
  unfold renameType
  cases QualifiedName.parse new with
  | error e => exact mirrored_pure _
  | ok qualified =>
    intro s keyed
    refine leads_read_bind ?_
    split
    · exact leads_pure ⟨keyed, rfl⟩
    · split
      · exact leads_pure ⟨keyed, rfl⟩
      · rename_i record held
        have now := withTypes_keyed keyed
          ((s.metadata.types.erase old).insert qualified.text record)
        have heard : s.mirror.hearAll
            [.typeUndefined old record.type, .typeDefined qualified.text record.type] =
              { s.mirror with types := ((s.metadata.types.erase old).insert qualified.text
                record).mapValues fun _ => TypeRecord.type } := by
          rw [Table.mapValues_insert, Table.mapValues_erase]
          rfl
        refine leads_modify_bind rfl ?_
        split
        · refine leads_modify_bind rfl (follows_bind (emit_follows ⟨now.map, now.metadata, ?_⟩
            heard) fun _ => mirrored_pure _)
          refine UndoLog.commit_keyed (UndoLog.record_keyed (UndoLog.record_keyed ?_ ?_) ?_)
          · exact ⟨keyed.undoLog.group, keyed.undoLog.past, keyed.undoLog.future⟩
          · trivial
          · trivial
        · exact follows_bind (emit_follows now heard) fun _ => mirrored_pure _

theorem restoreType_mirrored (name : String) (state : Option TypeRecord) :
    Mirrored (restoreType name state) := by
  intro s keyed
  have told {events : List ChangeEvent} {types : Table String DataType}
      (heard : s.mirror.hearAll events = { s.mirror with types := types })
      (placed : (s.metadata.types.alter name fun _ => state).mapValues (fun _ => TypeRecord.type) =
        types) :
      (emit events).Leads { s with metadata := { s.metadata with
        types := s.metadata.types.alter name fun _ => state } } s.mirror Follows :=
    emit_follows (withTypes_keyed keyed _)
      (heard.trans (congrArg (fun types => { s.mirror with types := types }) placed.symm))
  refine leads_read_bind (leads_modify_bind rfl (leads_read_bind ?_))
  cases held : s.metadata.types.get? name with
  | none =>
    cases state with
    | none => exact told rfl (by rw [Table.alter_same held])
    | some new => exact told rfl (Table.mapValues_insert _ _ _ _)
  | some old =>
    cases state with
    | none => exact told (hearAll_cons_mentions _ _ _ _) (Table.mapValues_erase _ _ _)
    | some new =>
      have inserted := Table.mapValues_insert s.metadata.types name new TypeRecord.type
      simp only
      split
      · rename_i same
        have before : s.mirror.types.get? name = some new.type := by
          rw [mirror, Table.get?_mapValues, held, Option.map_some, same]
        exact told rfl (inserted.trans (Table.alter_same before))
      · exact told (hearAll_cons_mentions _ _ _ _) inserted

end Types

end Space

end BinaryAtlas
