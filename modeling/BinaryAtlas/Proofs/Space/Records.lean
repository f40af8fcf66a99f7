import BinaryAtlas.Proofs.Space.Settling
import BinaryAtlas.Proofs.TableSearch
import BinaryAtlas.Space.Notes
import BinaryAtlas.Space.Symbols
import BinaryAtlas.Space.Tags
import BinaryAtlas.Space.Types

/-!
What the operations on records answer, and where they lead.
-/

set_option autoImplicit false

namespace BinaryAtlas

namespace Table

section User

variable {K V : Type} [Ord K] [Std.TransOrd K] [Std.LawfulEqOrd K] [Provenance V]

/-- A user's record is never ignored, and takes the place of whatever was there. -/
theorem define_user (table : Table K V) (key : K) {value : V}
    (user : Provenance.isAuto value = false) :
    (table.define key value).1 = table.alter key (fun _ => some value) ∧
      (table.define key value).2.isIgnored = false ∧
      (table.define key value).2.before? = table.get? key := by
  unfold define
  cases held : table.get? key with
  | none => exact ⟨rfl, rfl, rfl⟩
  | some before =>
    simp only [user, Bool.false_and, Bool.false_eq_true, if_false]
    split <;> exact ⟨rfl, rfl, rfl⟩

theorem undefine_user (table : Table K V) (key : K) :
    table.undefine key false = (table.alter key (fun _ => none), table.get? key) := by
  unfold undefine
  cases held : table.get? key with
  | none => rw [alter_same held]
  | some value => rfl

end User

end Table

namespace Space

variable {s : Space}

theorem defineVariable_settles (s : Space) {v : DataVariable} (user : v.auto = false) :
    (defineVariable v).Settles s ()
      (noted true (.variable v.address (s.metadata.dataVariables.get? v.address) (some v))
        { s with metadata := { s.metadata with
          dataVariables := s.metadata.dataVariables.alter v.address fun _ => some v } }) := by
  obtain ⟨table, kept, before⟩ := Table.define_user s.metadata.dataVariables v.address user
  unfold defineVariable
  simp only [Op.update_bind_settles, recordIf_bind_settles, user, kept, before, table]
  cases (s.metadata.dataVariables.define v.address v).2 <;> simp

theorem undefineVariable_settles (s : Space) (a : Word) :
    (undefineVariable a false).Settles s (s.metadata.dataVariables.get? a).isSome
      (noted (s.metadata.dataVariables.get? a).isSome
        (.variable a (s.metadata.dataVariables.get? a) none)
        { s with metadata := { s.metadata with
          dataVariables := s.metadata.dataVariables.alter a fun _ => none } }) := by
  cases held : s.metadata.dataVariables.get? a <;>
    simp [undefineVariable, Table.undefine_user, held, noted, recordIf_bind_settles]

theorem restoreVariable_settles (s : Space) (a : Word) (state : Option DataVariable) :
    (restoreVariable a state).Settles s () { s with metadata := { s.metadata with
      dataVariables := s.metadata.dataVariables.alter a fun _ => state } } := by
  simp [restoreVariable, editMetadata]

theorem defineSymbol_settles (s : Space) {symbol : Symbol} (user : symbol.auto = false) :
    (defineSymbol symbol).Settles s ()
      (noted true (.symbol symbol.key (s.metadata.symbols.get? symbol.key) (some symbol))
        { s with metadata := { s.metadata with
          symbols := s.metadata.symbols.alter symbol.key fun _ => some symbol } }) := by
  obtain ⟨table, kept, before⟩ := Table.define_user s.metadata.symbols symbol.key user
  unfold defineSymbol
  simp only [Op.update_bind_settles, recordIf_bind_settles, user, kept, before, table]
  cases (s.metadata.symbols.define symbol.key symbol).2 <;> simp

theorem undefineSymbol_settles (s : Space) (key : SymbolKey) :
    (undefineSymbol key false).Settles s (s.metadata.symbols.get? key).isSome
      (noted (s.metadata.symbols.get? key).isSome (.symbol key (s.metadata.symbols.get? key) none)
        { s with metadata := { s.metadata with
          symbols := s.metadata.symbols.alter key fun _ => none } }) := by
  cases held : s.metadata.symbols.get? key <;>
    simp [undefineSymbol, Table.undefine_user, held, noted]

theorem restoreSymbol_settles (s : Space) (key : SymbolKey) (state : Option Symbol) :
    (restoreSymbol key state).Settles s () { s with metadata := { s.metadata with
      symbols := s.metadata.symbols.alter key fun _ => state } } := by
  simp [restoreSymbol, editMetadata]

theorem defineType_refused {name : String} {type : DataType} {auto : Bool} {e : AtlasError}
    (refused : QualifiedName.parse name = .error e) (s : Space) :
    (defineType name type auto).Settles s (.error e) s := by
  simp [defineType, refused]

/-- A name keeps its identifier; a new one gets one. -/
def typeIdFor (s : Space) (name : String) : Uuid :=
  (s.typeId? name).getD (.fresh s.idsMade)

theorem defineType_settles (s : Space) {given name : String} (type : DataType)
    {qualified : QualifiedName} (parsed : QualifiedName.parse given = .ok qualified)
    (named : qualified.text = name) :
    let typeRecord : TypeRecord := ⟨s.typeIdFor name, type, false⟩
    (defineType given type false).Settles s (.ok (s.typeIdFor name))
      (noted true (.type name (s.metadata.types.get? name) (some typeRecord))
        { s with
          metadata := { s.metadata with
            types := s.metadata.types.alter name fun _ => some typeRecord }
          idsMade :=
            if (s.metadata.types.get? name).isSome then s.idsMade else s.idsMade + 1 }) := by
  have defined (id : Uuid) :=
    s.metadata.types.define_user name
      (show Provenance.isAuto (⟨id, type, false⟩ : TypeRecord) = false from rfl)
  unfold defineType
  simp only [parsed, named, Op.read_bind_settles]
  cases held : s.metadata.types.get? name with
  | none =>
    have id_eq : s.typeIdFor name = .fresh s.idsMade := by simp [typeIdFor, typeId?, held]
    simp only [freshId, Op.update_bind_settles, recordIf_bind_settles, defined, held, id_eq]
    cases (s.metadata.types.define name ⟨.fresh s.idsMade, type, false⟩).2 <;> simp
  | some old =>
    have id_eq : s.typeIdFor name = old.id := by simp [typeIdFor, typeId?, held]
    simp only [Op.pure_bind_settles, Op.update_bind_settles, recordIf_bind_settles, defined, held,
      id_eq]
    cases (s.metadata.types.define name ⟨old.id, type, false⟩).2 <;> simp

theorem undefineType_settles (s : Space) (name : String) :
    (undefineType name false).Settles s (s.metadata.types.get? name).isSome
      (noted (s.metadata.types.get? name).isSome (.type name (s.metadata.types.get? name) none)
        { s with metadata := { s.metadata with
          types := s.metadata.types.alter name fun _ => none } }) := by
  cases held : s.metadata.types.get? name <;>
    simp [undefineType, Table.undefine_user, held, noted]

theorem restoreType_settles (s : Space) (name : String) (state : Option TypeRecord) :
    (restoreType name state).Settles s () { s with metadata := { s.metadata with
      types := s.metadata.types.alter name fun _ => state } } := by
  cases state with
  | none =>
    cases held : s.metadata.types.get? name <;> simp [restoreType, editMetadata, held]
  | some new =>
    cases held : s.metadata.types.get? name with
    | none => simp [restoreType, editMetadata, held]
    | some old =>
      by_cases same : old.type = new.type <;> simp [restoreType, editMetadata, held, same]

theorem renameType_refused {old new : String} {e : AtlasError}
    (refused : QualifiedName.parse new = .error e) (s : Space) :
    (renameType old new).Settles s (.error e) s := by
  simp [renameType, refused]

theorem renameType_taken (s : Space) {old new : String} {qualified : QualifiedName}
    (parsed : QualifiedName.parse new = .ok qualified)
    (taken : s.metadata.types.contains qualified.text = true) :
    (renameType old new).Settles s
      (.error (.invalidArgument s!"type {qualified.text} already exists")) s := by
  simp [renameType, parsed, taken]

theorem renameType_absent (s : Space) {old new : String} {qualified : QualifiedName}
    (parsed : QualifiedName.parse new = .ok qualified)
    (free : s.metadata.types.contains qualified.text = false)
    (absent : s.metadata.types.get? old = none) :
    (renameType old new).Settles s (.ok false) s := by
  simp [renameType, parsed, free, absent]

/-- A renaming is noted as a group of its own: the old name goes, and the new one comes. -/
theorem renameType_settles (s : Space) {old new : String} {qualified : QualifiedName}
    {typeRecord : TypeRecord} (parsed : QualifiedName.parse new = .ok qualified)
    (free : s.metadata.types.contains qualified.text = false)
    (held : s.metadata.types.get? old = some typeRecord) (user : typeRecord.auto = false) :
    (renameType old new).Settles s (.ok true)
      { s with
        metadata := { s.metadata with
          types := (s.metadata.types.alter old fun _ => none).alter qualified.text
            fun _ => some typeRecord }
        undoLog := (((s.undoLog.begin.record (.type old (some typeRecord) none)).record
          (.type qualified.text none (some typeRecord))).commit).1 } := by
  simp [renameType, parsed, free, held, user, editMetadata, Table.alter]

theorem addTag_refused (s : Space) (a : Word) {tag : Tag} (auto : Bool)
    (unknown : s.metadata.tagTypes.contains tag.type = false) :
    (addTag a tag auto).Settles s (.error (.notFound s!"tag type {tag.type.text}")) s := by
  simp [addTag, unknown]

theorem addTag_settles (s : Space) (a : Word) {tag : Tag}
    (known : s.metadata.tagTypes.contains tag.type = true) :
    (addTag a tag false).Settles s (.ok ())
      (noted true (.tag ⟨a, tag.id⟩ (s.metadata.tags.get? ⟨a, tag.id⟩) (some ⟨tag, a, false⟩))
        { s with metadata := { s.metadata with
          tags := s.metadata.tags.alter ⟨a, tag.id⟩ fun _ => some ⟨tag, a, false⟩ } }) := by
  have user : Provenance.isAuto (⟨tag, a, false⟩ : TagReference) = false := rfl
  obtain ⟨table, kept, before⟩ := s.metadata.tags.define_user ⟨a, tag.id⟩ user
  unfold addTag
  simp only [Op.read_bind_settles, known, Bool.not_true, Bool.false_eq_true, if_false,
    Op.update_bind_settles, recordIf_bind_settles, kept, before, table]
  cases (s.metadata.tags.define ⟨a, tag.id⟩ (⟨tag, a, false⟩ : TagReference)).2 <;> simp

theorem removeTag_settles (s : Space) (a : Word) (id : Uuid) :
    (removeTag a id false).Settles s (s.metadata.tags.get? ⟨a, id⟩).isSome
      (noted (s.metadata.tags.get? ⟨a, id⟩).isSome
        (.tag ⟨a, id⟩ (s.metadata.tags.get? ⟨a, id⟩) none)
        { s with metadata := { s.metadata with
          tags := s.metadata.tags.alter ⟨a, id⟩ fun _ => none } }) := by
  cases held : s.metadata.tags.get? ⟨a, id⟩ <;>
    simp [removeTag, Table.undefine_user, held, noted]

theorem restoreTag_settles (s : Space) (key : TagKey) (state : Option TagReference) :
    (restoreTag key state).Settles s () { s with metadata := { s.metadata with
      tags := s.metadata.tags.alter key fun _ => state } } := by
  simp [restoreTag, editMetadata]

/-- What setting a text as a comment leaves: an empty one is none. -/
def commentOf (text : String) : Option String := if text = "" then none else some text

theorem commentOf_ne_empty (text : String) : commentOf text ≠ some "" := by
  unfold commentOf
  split
  · exact nofun
  · simpa using ‹_›

theorem setComment_settles (s : Space) (a : Word) (text : String) :
    (setComment a text).Settles s ()
      (noted (s.metadata.comments.get? a != commentOf text)
        (.comment a (s.metadata.comments.get? a) (commentOf text))
        { s with metadata := { s.metadata with
          comments := s.metadata.comments.alter a fun _ => commentOf text } }) := by
  have left : (if text = "" then none else some text) = commentOf text := rfl
  simp only [setComment, editMetadata, left, Op.read_bind_settles, Op.modify_bind_settles]
  by_cases same : s.metadata.comments.get? a = commentOf text
  · simp [same, noted]
  · have other : (s.metadata.comments.get? a != commentOf text) = true := by simpa using same
    rw [if_neg same, other]
    simp

end Space

end BinaryAtlas
