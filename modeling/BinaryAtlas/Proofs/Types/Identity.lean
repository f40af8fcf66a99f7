import BinaryAtlas.Proofs.Types.Homes

/-!
The identifiers of types. No two names share one, whatever is defined, renamed, taken back and done
again, as long as no type of an automatic record is renamed that the log still knows.
-/

set_option autoImplicit false

namespace BinaryAtlas

namespace Space

variable {s : Space}

/-- An automatic definition leaves a user's type alone. -/
theorem defineType_auto_settles (s : Space) {given : String} (type : DataType)
    {qualified : QualifiedName} (parsed : QualifiedName.parse given = .ok qualified) :
    (defineType given type true).Settles s (.ok (s.typeIdFor qualified.text))
      { s with
        metadata := { s.metadata with
          types :=
            if (s.metadata.types.get? qualified.text).any (!·.auto) then s.metadata.types
            else s.metadata.types.alter qualified.text fun _ =>
              some ⟨s.typeIdFor qualified.text, type, true⟩ }
        idsMade := if (s.metadata.types.get? qualified.text).isSome then s.idsMade
          else s.idsMade + 1 } := by
  unfold defineType
  simp only [parsed, Op.read_bind_settles]
  cases held : s.metadata.types.get? qualified.text with
  | none =>
    have id_eq : s.typeIdFor qualified.text = .fresh s.idsMade := by
      simp [typeIdFor, typeId?, held]
    simp only [freshId, Op.update_bind_settles, recordIf_bind_settles, id_eq, Table.define, held]
    simp [noted, Table.alter]
  | some old =>
    have id_eq : s.typeIdFor qualified.text = old.id := by simp [typeIdFor, typeId?, held]
    simp only [Op.pure_bind_settles, Op.update_bind_settles, recordIf_bind_settles, id_eq,
      Table.define, held]
    cases user : old.auto with
    | false => simp [noted, Provenance.isAuto, user]
    | true =>
      by_cases same : Provenance.sameValue old ⟨old.id, type, true⟩ = true <;>
        simp [noted, Provenance.isAuto, user, same, Table.alter]

theorem undefineType_auto_settles (s : Space) (name : String) :
    (undefineType name true).Settles s ((s.metadata.types.get? name).any (·.auto))
      { s with metadata := { s.metadata with
        types := if (s.metadata.types.get? name).any (·.auto)
          then s.metadata.types.alter name fun _ => none else s.metadata.types } } := by
  cases held : s.metadata.types.get? name with
  | none => simp [undefineType, Table.undefine, held]
  | some old =>
    cases auto : old.auto <;>
      simp [undefineType, Table.undefine, held, auto, Provenance.isAuto, noted, Table.alter]

/-- Renaming the type of an automatic record goes without a note. -/
theorem renameType_auto_settles (s : Space) {old new : String} {qualified : QualifiedName}
    {typeRecord : TypeRecord} (parsed : QualifiedName.parse new = .ok qualified)
    (free : s.metadata.types.contains qualified.text = false)
    (held : s.metadata.types.get? old = some typeRecord) (auto : typeRecord.auto = true) :
    (renameType old new).Settles s (.ok true)
      { s with metadata := { s.metadata with
        types := (s.metadata.types.alter old fun _ => none).alter qualified.text
          fun _ => some typeRecord } } := by
  simp [renameType, parsed, free, held, auto, editMetadata, Table.alter]

end Space

/-- The homes of all identifiers at present, which the log leads to and from. -/
structure Housed (s : Space) (present : Homes) : Prop where
  recording : s.undoLog.replaying = false
  outside : s.undoLog.depth = 0
  ungrouped : s.undoLog.group = []
  past : ∃ first, Trail s.idsMade first s.undoLog.done present
  future : ∃ last, Trail s.idsMade present s.undoLog.future.flatten last
  lodged : present.Lodges s.metadata.types

/-- The log has an action on a record with the identifier. -/
def UndoLog.bears (log : UndoLog) (id : Uuid) : Bool :=
  (log.done ++ log.future.flatten).any (·.bears id)

namespace Housed

open Space

variable {s after : Space} {present : Homes} {name : String}

theorem of_settles {α : Type} {op : Op α} {answer : α} (settles : op.Settles s answer after)
    (housed : Housed after present) : Housed (op s).collect.2.2 present := by
  obtain ⟨recording, outside, ungrouped, past, future, lodged⟩ := housed
  rw [← settles.undoLog] at recording outside ungrouped past future
  rw [← settles.idsMade] at past future
  rw [← settles.types] at lodged
  exact ⟨recording, outside, ungrouped, past, future, lodged⟩

theorem below (housed : Housed s present) : present.Below s.idsMade := by
  obtain ⟨last, future⟩ := housed.future
  exact future.below_first

/-- An identifier that neither the log nor a record bears may be given any home. -/
theorem moved (housed : Housed s present) {id : Uuid} (unknown : s.undoLog.bears id = false)
    (home : Option String) {types : Table String TypeRecord} {made : Nat}
    (le : s.idsMade ≤ made) (new : id.value < (Uuid.fresh made).value)
    (lodged : (present.move id home).Lodges types) :
    Housed { s with metadata := { s.metadata with types := types }, idsMade := made }
      (present.move id home) := by
  simp only [UndoLog.bears, List.any_append, Bool.or_eq_false_iff, List.any_eq_false,
    Bool.not_eq_true] at unknown
  obtain ⟨first, past⟩ := housed.past
  obtain ⟨last, future⟩ := housed.future
  exact ⟨housed.recording, housed.outside, housed.ungrouped,
    ⟨_, past.moved unknown.1 le new home⟩, ⟨_, future.moved unknown.2 le new home⟩, lodged⟩

theorem issued (housed : Housed s present) (home : Option String) :
    Housed { s with idsMade := s.idsMade + 1 } (present.move (.fresh s.idsMade) home) := by
  obtain ⟨first, past⟩ := housed.past
  obtain ⟨last, future⟩ := housed.future
  have unknown : s.undoLog.bears (.fresh s.idsMade) = false := by
    simp only [UndoLog.bears, List.any_append, Bool.or_eq_false_iff, List.any_eq_false,
      Bool.not_eq_true]
    exact ⟨past.foreign_of_new (Nat.le_refl _), future.foreign_of_new (Nat.le_refl _)⟩
  refine housed.moved unknown home (Nat.le_succ _) (by simp [Uuid.fresh]) ?_
  refine housed.lodged.move (fun name r held same => ?_) home
  have := housed.below r.id name (housed.lodged name r held)
  rw [same] at this
  exact Nat.lt_irrefl _ this

/-- A name gets another record, or none, whose identifier is at home there already. -/
theorem altered (housed : Housed s present) (condition : Bool) (state : Option TypeRecord)
    (home : ∀ r, state = some r → present r.id = some name) :
    Housed (noted condition (.type name (s.metadata.types.get? name) state)
      { s with metadata := { s.metadata with
        types := s.metadata.types.alter name fun _ => state } }) present := by
  have lodged := housed.lodged.alter home
  obtain ⟨first, past⟩ := housed.past
  cases condition with
  | false =>
    exact ⟨housed.recording, housed.outside, housed.ungrouped, ⟨first, past⟩, housed.future, lodged⟩
  | true =>
    obtain ⟨done, future, -⟩ := UndoLog.record_done housed.recording
      (fun _ => housed.ungrouped) (.type name (s.metadata.types.get? name) state)
    have link : Trail s.idsMade present [.type name (s.metadata.types.get? name) state] present :=
      .single housed.below housed.below
        (.still (fun r held => housed.lodged name r held) home)
    refine ⟨?_, ?_, ?_, ⟨first, ?_⟩, ⟨present, ?_⟩, lodged⟩
    · exact (UndoLog.record_replaying _ _).trans housed.recording
    · simp [noted, UndoLog.record, housed.recording, UndoLog.inGroup, housed.outside]
    · simp [noted, UndoLog.record, housed.recording, UndoLog.inGroup, housed.outside,
        housed.ungrouped]
    · simp only [noted, if_true, done]
      exact past.append link
    · simp only [noted, if_true, future]
      exact .nil housed.below

/-- A new name gets an identifier that nothing bears; an old one keeps its own. -/
theorem named (housed : Housed s present) (name : String) :
    ∃ homes, homes (s.typeIdFor name) = some name ∧
      Housed { s with idsMade :=
        if (s.metadata.types.get? name).isSome then s.idsMade else s.idsMade + 1 } homes := by
  cases held : s.metadata.types.get? name with
  | none =>
    have id_eq : s.typeIdFor name = .fresh s.idsMade := by simp [typeIdFor, typeId?, held]
    exact ⟨_, by rw [id_eq, Homes.move_same], housed.issued (some name)⟩
  | some old =>
    have id_eq : s.typeIdFor name = old.id := by simp [typeIdFor, typeId?, held]
    exact ⟨present, by rw [id_eq, housed.lodged name old held], housed⟩

theorem defineType (housed : Housed s present) (given : String) (type : DataType) (auto : Bool) :
    ∃ homes, Housed ((Space.defineType given type auto) s).collect.2.2 homes := by
  cases parsed : QualifiedName.parse given with
  | error e => exact ⟨present, of_settles (defineType_refused parsed s) housed⟩
  | ok qualified =>
    obtain ⟨homes, home, named⟩ := housed.named qualified.text
    refine ⟨homes, ?_⟩
    have homed (r : TypeRecord) (is : some (⟨s.typeIdFor qualified.text, type, auto⟩ : TypeRecord) =
        some r) : homes r.id = some qualified.text := by
      cases is
      exact home
    cases auto with
    | false =>
      exact of_settles (defineType_settles s type parsed rfl) (named.altered true _ homed)
    | true =>
      refine of_settles (defineType_auto_settles s type parsed) ?_
      cases (s.metadata.types.get? qualified.text).any (!·.auto) with
      | true => exact named
      | false => exact named.altered false _ homed

theorem undefineType (housed : Housed s present) (name : String) (auto : Bool) :
    Housed ((Space.undefineType name auto) s).collect.2.2 present := by
  cases auto with
  | false =>
    exact of_settles (undefineType_settles s name) (housed.altered _ none (by rintro _ ⟨⟩))
  | true =>
    refine of_settles (undefineType_auto_settles s name) ?_
    cases (s.metadata.types.get? name).any (·.auto) with
    | true => exact housed.altered false none (by rintro _ ⟨⟩)
    | false => exact housed

/-- In the table a renamed record is at home under its new name. -/
theorem renamed_lodges (lodged : present.Lodges s.metadata.types) {old new : String}
    {typeRecord : TypeRecord} (held : s.metadata.types.get? old = some typeRecord) :
    (present.move typeRecord.id (some new)).Lodges
      ((s.metadata.types.alter old fun _ => none).alter new fun _ => some typeRecord) := by
  have without : present.Lodges (s.metadata.types.alter old fun _ => none) :=
    lodged.alter (by rintro _ ⟨⟩)
  refine Homes.Lodges.alter (without.move ?_ _) ?_
  · intro name r there same
    rw [Table.get?_alter] at there
    split at there
    · cases there
    · rename_i apart
      exact apart (lodged.unique there held same)
  · rintro r ⟨⟩
    exact Homes.move_same present typeRecord.id (some new)

theorem renameUserType (housed : Housed s present) {old : String} {qualified : QualifiedName}
    {typeRecord : TypeRecord} (held : s.metadata.types.get? old = some typeRecord) :
    Housed { s with
      metadata := { s.metadata with
        types := (s.metadata.types.alter old fun _ => none).alter qualified.text
          fun _ => some typeRecord }
      undoLog := (((s.undoLog.begin.record (.type old (some typeRecord) none)).record
        (.type qualified.text none (some typeRecord))).commit).1 }
      (present.move typeRecord.id (some qualified.text)) := by
  have home := housed.lodged old typeRecord held
  have leaves : Rehouses present (.type old (some typeRecord) none)
      (present.move typeRecord.id none) := by
    refine .type (by rintro r ⟨⟩; exact home) (by rintro _ ⟨⟩) fun id other apart => ?_
    by_cases same : id = typeRecord.id
    · rw [same, Homes.move_same, home]
      simp [Ne.symm apart]
    · rw [Homes.move_other present none same]
  have comes : Rehouses (present.move typeRecord.id none)
      (.type qualified.text none (some typeRecord))
      (present.move typeRecord.id (some qualified.text)) := by
    refine .type (by rintro _ ⟨⟩) (by rintro r ⟨⟩; exact Homes.move_same ..)
      fun id other apart => ?_
    by_cases same : id = typeRecord.id
    · rw [same, Homes.move_same, Homes.move_same]
      simp [Ne.symm apart]
    · rw [Homes.move_other present none same, Homes.move_other present _ same]
  have issued : typeRecord.id.value < (Uuid.fresh s.idsMade).value := housed.below _ _ home
  have below (place : Option String) : (present.move typeRecord.id place).Below s.idsMade :=
    housed.below.move (Nat.le_refl _) issued place
  have log : (((s.undoLog.begin.record (.type old (some typeRecord) none)).record
      (.type qualified.text none (some typeRecord))).commit).1 = { s.undoLog with
        past := [.type old (some typeRecord) none, .type qualified.text none (some typeRecord)] ::
          s.undoLog.past, future := [] } := by
    simp [UndoLog.begin, UndoLog.record, UndoLog.commit, UndoLog.inGroup, housed.recording,
      housed.outside, housed.ungrouped]
  rw [log]
  obtain ⟨first, past⟩ := housed.past
  refine ⟨housed.recording, housed.outside, housed.ungrouped, ⟨first, ?_⟩, ⟨_, .nil (below _)⟩,
    renamed_lodges housed.lodged held⟩
  have done := past.append ((Trail.single housed.below (below _) leaves).append
    (.single (below _) (below _) comes))
  simpa [UndoLog.done, housed.ungrouped] using done

/-- A name that is free takes over the record, with its identifier. -/
theorem renameType (housed : Housed s present) (old new : String)
    (permitted : ∀ r, s.metadata.types.get? old = some r → r.auto = true →
      s.undoLog.bears r.id = false) :
    ∃ homes, Housed ((Space.renameType old new) s).collect.2.2 homes := by
  cases parsed : QualifiedName.parse new with
  | error e => exact ⟨present, of_settles (renameType_refused parsed s) housed⟩
  | ok qualified =>
    cases taken : s.metadata.types.contains qualified.text with
    | true => exact ⟨present, of_settles (renameType_taken s parsed taken) housed⟩
    | false =>
      cases held : s.metadata.types.get? old with
      | none => exact ⟨present, of_settles (renameType_absent s parsed taken held) housed⟩
      | some typeRecord =>
        refine ⟨present.move typeRecord.id (some qualified.text), ?_⟩
        cases auto : typeRecord.auto with
        | false =>
          exact of_settles (renameType_settles s parsed taken held auto)
            (housed.renameUserType held)
        | true =>
          have home := housed.lodged old typeRecord held
          exact of_settles (renameType_auto_settles s parsed taken held auto)
            (housed.moved (permitted typeRecord held auto) _ (Nat.le_refl _)
              (housed.below _ _ home) (renamed_lodges housed.lodged held))

/-- To replay an entry leads from the homes at its one side to those at its other. -/
theorem replayed (housed : Housed s present) {actions : List UndoAction} {homes : Homes}
    (trail : Trail s.idsMade present actions homes) {log : UndoLog} {f : UndoLog → UndoLog}
    (l : UndoLog) (becomes : f { log with replaying := true } = l)
    (recording : l.replaying = false) (outside : l.depth = 0) (ungrouped : l.group = [])
    (past : ∃ first, Trail s.idsMade first l.done homes)
    (future : ∃ last, Trail s.idsMade homes l.future.flatten last) :
    Housed ((Space.replayed actions log s).withLog f) homes := by
  obtain ⟨lodged, logged, made⟩ :=
    trail.replays (s := { s with undoLog := { log with replaying := true } }) housed.lodged
  change (Space.replayed actions log s).undoLog = _ at logged
  change (Space.replayed actions log s).idsMade = s.idsMade at made
  have becomes : f (Space.replayed actions log s).undoLog = l := by rw [logged, becomes]
  refine ⟨?_, ?_, ?_, ?_, ?_, lodged⟩ <;> simp only [withLog, becomes, made] <;> assumption

theorem undo (housed : Housed s present) :
    ∃ homes, Housed ((Space.undo) s).collect.2.2 homes := by
  by_cases refused : s.undoLog.inGroup = true ∨ s.undoLog.past = []
  · rw [undo_refused refused]
    exact ⟨present, housed⟩
  · obtain ⟨entry, earlier, outside, latest⟩ := undo_admitted refused
    obtain ⟨first, past⟩ := housed.past
    obtain ⟨last, future⟩ := housed.future
    rw [UndoLog.done, latest, housed.ungrouped, List.append_nil, List.reverse_cons,
      List.flatten_append, List.flatten_singleton] at past
    obtain ⟨middle, before, back⟩ := past.split
    rw [collect_undo outside latest]
    refine ⟨middle, ?_⟩
    dsimp only
    refine housed.replayed back.reversed { s.undoLog with
      past := earlier, future := entry :: s.undoLog.future, replaying := false } rfl rfl
      housed.outside housed.ungrouped ⟨first, ?_⟩ ⟨last, back.append future⟩
    simpa [UndoLog.done, housed.ungrouped] using before

theorem redo (housed : Housed s present) :
    ∃ homes, Housed ((Space.redo) s).collect.2.2 homes := by
  by_cases refused : s.undoLog.inGroup = true ∨ s.undoLog.future = []
  · rw [redo_refused refused]
    exact ⟨present, housed⟩
  · obtain ⟨entry, later, outside, next⟩ := redo_admitted refused
    obtain ⟨first, past⟩ := housed.past
    obtain ⟨last, future⟩ := housed.future
    rw [next, List.flatten_cons] at future
    obtain ⟨middle, forth, rest⟩ := future.split
    rw [collect_redo outside next]
    refine ⟨middle, ?_⟩
    dsimp only
    refine housed.replayed forth { s.undoLog with
      past := entry :: s.undoLog.past, future := later, replaying := false } rfl rfl
      housed.outside housed.ungrouped ⟨first, ?_⟩ ⟨last, rest⟩
    have done := past.append forth
    simpa [UndoLog.done, housed.ungrouped] using done

end Housed

inductive TypeEdit where
  | define (name : String) (type : DataType) (auto : Bool)
  | undefine (name : String) (auto : Bool)
  | rename (old new : String)
  | undo
  | redo

namespace TypeEdit

def run : TypeEdit → Op Unit
  | define name type auto => discard (Space.defineType name type auto)
  | undefine name auto => discard (Space.undefineType name auto)
  | rename old new => discard (Space.renameType old new)
  | undo => discard Space.undo
  | redo => discard Space.redo

/-- The type of an automatic record is renamed only while the log does not bear its identifier. -/
def isPermitted (s : Space) : TypeEdit → Bool
  | rename old _ =>
    (s.metadata.types.get? old).all fun r => !r.auto || !s.undoLog.bears r.id
  | _ => true

end TypeEdit

inductive TypesEdited (initial : Space) : Space → Prop where
  | initial : TypesEdited initial initial
  | edit {s : Space} (earlier : TypesEdited initial s) (edit : TypeEdit)
      (permitted : edit.isPermitted s = true) : TypesEdited initial ((edit.run) s).collect.2.2

theorem Housed.edit {s : Space} {present : Homes} (housed : Housed s present) (edit : TypeEdit)
    (permitted : edit.isPermitted s = true) : ∃ homes, Housed ((edit.run) s).collect.2.2 homes := by
  cases edit with
  | define name type auto =>
    rw [TypeEdit.run, Op.collect_discard]
    exact housed.defineType name type auto
  | undefine name auto =>
    rw [TypeEdit.run, Op.collect_discard]
    exact ⟨present, housed.undefineType name auto⟩
  | rename old new =>
    rw [TypeEdit.run, Op.collect_discard]
    refine housed.renameType old new fun r held auto => ?_
    simpa [TypeEdit.isPermitted, held, auto] using permitted
  | undo =>
    rw [TypeEdit.run, Op.collect_discard]
    exact housed.undo
  | redo =>
    rw [TypeEdit.run, Op.collect_discard]
    exact housed.redo

theorem TypesEdited.housed {initial s : Space} (types : initial.metadata.types = .empty)
    (log : initial.undoLog = .empty) (edited : TypesEdited initial s) :
    ∃ present, Housed s present := by
  induction edited with
  | initial =>
    have below : Homes.Below (fun _ => none) initial.idsMade := by rintro _ _ ⟨⟩
    refine ⟨fun _ => none, ?_, ?_, ?_, ⟨fun _ => none, ?_⟩, ⟨fun _ => none, ?_⟩, ?_⟩
    · rw [log]; rfl
    · rw [log]; rfl
    · rw [log]; rfl
    · rw [log]; exact .nil below
    · rw [log]; exact .nil below
    · intro name r held
      rw [types] at held
      cases held
  | edit earlier edit permitted ih =>
    obtain ⟨present, housed⟩ := ih
    exact housed.edit edit permitted

namespace Space

variable {s : Space}

theorem typeName?_eq_some_iff (unique : ∀ n m r r', s.metadata.types.get? n = some r →
      s.metadata.types.get? m = some r' → r.id = r'.id → n = m) (id : Uuid) (name : String) :
    s.typeName? id = some name ↔ s.typeId? name = some id := by
  simp only [typeName?, typeId?, Option.map_eq_some_iff]
  constructor
  · rintro ⟨⟨other, r⟩, found, rfl⟩
    exact ⟨r, Table.get?_eq_some_iff.2 (List.mem_of_find?_eq_some found),
      by simpa using List.find?_some found⟩
  · rintro ⟨r, held, rfl⟩
    cases found : s.metadata.types.entries.find? (·.2.id == r.id) with
    | none =>
      have := List.find?_eq_none.1 found _ (Table.get?_eq_some_iff.1 held)
      simp at this
    | some e =>
      have held' := Table.get?_eq_some_iff.2 (List.mem_of_find?_eq_some found)
      exact ⟨e, rfl, unique _ _ _ _ held' held (by simpa using List.find?_some found)⟩

theorem defineType_keeps_id {given : String} {qualified : QualifiedName} {id : Uuid}
    (parsed : QualifiedName.parse given = .ok qualified)
    (held : s.typeId? qualified.text = some id) (type : DataType) (auto : Bool) :
    ((defineType given type auto) s).collect.2.1 = .ok id ∧
      ((defineType given type auto) s).collect.2.2.typeId? qualified.text = some id := by
  have id_eq : s.typeIdFor qualified.text = id := by simp [typeIdFor, held]
  cases auto with
  | false =>
    have settles := defineType_settles s type parsed rfl
    refine ⟨settles.1.trans (by rw [id_eq]), ?_⟩
    rw [typeId?, settles.types]
    simp [noted, Table.get?_alter, id_eq]
  | true =>
    have settles := defineType_auto_settles s type parsed
    refine ⟨settles.1.trans (by rw [id_eq]), ?_⟩
    rw [typeId?, settles.types]
    simp only
    split
    · exact held
    · simp [Table.get?_alter, id_eq]

theorem renameType_keeps_record {old new : String}
    (renamed : ((renameType old new) s).collect.2.1 = .ok true) :
    ∃ qualified r, QualifiedName.parse new = .ok qualified ∧
      s.metadata.types.get? old = some r ∧ s.metadata.types.get? qualified.text = none ∧
      ((renameType old new) s).collect.2.2.metadata.types.get? qualified.text = some r ∧
      ((renameType old new) s).collect.2.2.metadata.types.get? old = none := by
  cases parsed : QualifiedName.parse new with
  | error e =>
    rw [(renameType_refused parsed s).1] at renamed
    cases renamed
  | ok qualified =>
    cases taken : s.metadata.types.contains qualified.text with
    | true =>
      rw [(renameType_taken s parsed taken).1] at renamed
      cases renamed
    | false =>
      cases held : s.metadata.types.get? old with
      | none =>
        rw [(renameType_absent s parsed taken held).1] at renamed
        cases renamed
      | some r =>
        have free : s.metadata.types.get? qualified.text = none := by
          simpa [Table.contains] using taken
        have apart : old ≠ qualified.text := by
          rintro rfl
          rw [held] at free
          cases free
        have types : ((renameType old new) s).collect.2.2.metadata.types =
            (s.metadata.types.alter old fun _ => none).alter qualified.text fun _ => some r := by
          cases auto : r.auto with
          | false => exact (renameType_settles s parsed taken held auto).types
          | true => exact (renameType_auto_settles s parsed taken held auto).types
        refine ⟨qualified, r, rfl, rfl, free, ?_, ?_⟩
        · simp [types, Table.get?_alter]
        · simp [types, Table.get?_alter, apart]

end Space

/-- Identifiers of types are unique and lead back to their names. Defining a name again and giving a
record another name keep them. -/
theorem type_ids_unique {initial s : Space} (types : initial.metadata.types = .empty)
    (log : initial.undoLog = .empty) (edited : TypesEdited initial s) :
    (∀ n m r r', s.metadata.types.get? n = some r → s.metadata.types.get? m = some r' →
      r.id = r'.id → n = m) ∧
    (∀ id n, s.typeName? id = some n ↔ s.typeId? n = some id) ∧
    (∀ given qualified id type auto, QualifiedName.parse given = .ok qualified →
      s.typeId? qualified.text = some id →
      ((Space.defineType given type auto) s).collect.2.1 = .ok id ∧
      ((Space.defineType given type auto) s).collect.2.2.typeId? qualified.text = some id) ∧
    ∀ old new, ((Space.renameType old new) s).collect.2.1 = .ok true →
      ∃ qualified r, QualifiedName.parse new = .ok qualified ∧
        s.metadata.types.get? old = some r ∧ s.metadata.types.get? qualified.text = none ∧
        ((Space.renameType old new) s).collect.2.2.metadata.types.get? qualified.text = some r ∧
        ((Space.renameType old new) s).collect.2.2.metadata.types.get? old = none := by
  obtain ⟨present, housed⟩ := edited.housed types log
  have unique (n m : String) (r r' : TypeRecord) (held : s.metadata.types.get? n = some r)
      (held' : s.metadata.types.get? m = some r') (same : r.id = r'.id) : n = m :=
    housed.lodged.unique held held' same
  exact ⟨unique, Space.typeName?_eq_some_iff unique,
    fun given qualified id type auto parsed held => Space.defineType_keeps_id parsed held type auto,
    fun old new renamed => Space.renameType_keeps_record renamed⟩

def untypedSpace : Space where
  backend := .raw
  storage := ⟨.memory, [0], .empty⟩
  map := .empty
  metadata := .empty
  functions := .empty
  undoLog := .empty
  scheduler := .initial
  architecture := none
  config := {}
  parentView := none
  bulk := ⟨0, []⟩
  idsMade := 0

def runEdits (edits : List TypeEdit) (s : Space) : Space :=
  edits.foldl (fun s edit => ((edit.run) s).collect.2.2) s

def permitsEdits : List TypeEdit → Space → Bool
  | [], _ => true
  | edit :: rest, s => edit.isPermitted s && permitsEdits rest ((edit.run) s).collect.2.2

theorem TypesEdited.runEdits {initial s : Space} (edited : TypesEdited initial s)
    {edits : List TypeEdit} (permitted : permitsEdits edits s = true) :
    TypesEdited initial (runEdits edits s) := by
  induction edits generalizing s with
  | nil => exact edited
  | cons edit rest ih =>
    obtain ⟨first, later⟩ := Bool.and_eq_true_iff.1 permitted
    exact ih (.edit edited edit first) later

/-- A user's type is renamed, taken back and done again, and an automatic one is renamed. -/
def renamings : List TypeEdit :=
  [.define "A" .bool true, .define "A" .void false, .rename "A" "B", .undo, .redo,
    .define "C" .bool true, .rename "C" "A"]

theorem renamed_types_apart :
    untypedSpace.metadata.types = .empty ∧ untypedSpace.undoLog = .empty ∧
    TypesEdited untypedSpace (runEdits renamings untypedSpace) ∧
    (runEdits renamings untypedSpace).typeId? "A" = some (.fresh 1) ∧
    (runEdits renamings untypedSpace).typeId? "B" = some (.fresh 0) ∧
    (runEdits renamings untypedSpace).typeName? (.fresh 1) = some "A" ∧
    (runEdits renamings untypedSpace).typeName? (.fresh 0) = some "B" := by
  have edited : TypesEdited untypedSpace (runEdits renamings untypedSpace) :=
    TypesEdited.initial.runEdits (by decide +kernel)
  have first : (runEdits renamings untypedSpace).typeId? "A" = some (.fresh 1) := by
    decide +kernel
  have second : (runEdits renamings untypedSpace).typeId? "B" = some (.fresh 0) := by
    decide +kernel
  obtain ⟨-, names, -, -⟩ := type_ids_unique rfl rfl edited
  exact ⟨rfl, rfl, edited, first, second, (names _ _).2 first, (names _ _).2 second⟩

/-- A user's definition of an automatic type is taken back and the type renamed. To do the
definition again brings a second record with its identifier. -/
theorem renamed_automatic_type_shares_id :
    let s := runEdits [.define "A" .bool true, .define "A" .bool false, .undo, .rename "A" "B",
      .redo] untypedSpace
    s.typeId? "A" = some (.fresh 0) ∧ s.typeId? "B" = some (.fresh 0) ∧
      s.typeName? (.fresh 0) ≠ some "B" := by
  decide +kernel

end BinaryAtlas
