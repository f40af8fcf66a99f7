import BinaryAtlas.QualifiedName
import BinaryAtlas.Space.Variables

/-!
The types a space knows by name. A type may be no more than another name; looking it up follows the
names to the end.
-/

set_option autoImplicit false

namespace BinaryAtlas

namespace TypeLibrary

/-- Follows names, at most `fuel` of them. `seen` are the names on the way and `last` the type that
led to `current`; a name without a record stands for that type itself. -/
def follow (types : Table String TypeRecord) (name : String) :
    Nat → List String → String → Option DataType → Except AtlasError (Option DataType)
  | 0, _, _, _ => .error (.typeCycle name)
  | fuel + 1, seen, current, last =>
    if seen.contains current then .error (.typeCycle name)
    else
      match types.get? current with
      | none => .ok last
      | some record =>
        match record.type with
        | .named next _ => follow types name fuel (current :: seen) next (some record.type)
        | type => .ok (some type)

def resolve (types : Table String TypeRecord) (name : String) :
    Except AtlasError (Option DataType) :=
  follow types name (types.size + 2) [] name none

def mentionEvents (m : Metadata) (name : String) : List ChangeEvent :=
  (m.variablesMentioning name).map (fun a => .typeReferenceChanged name a) ++
    (m.fieldsMentioning name).map (fun (owner, offset) => .typeFieldReferenceChanged owner offset)

end TypeLibrary

namespace Space

def defineType (name : String) (type : DataType) (auto : Bool) :
    Op (Except AtlasError Uuid) := do
  -- Gives a name a type; the answer is the identifier, which a name keeps from its first type.
  match QualifiedName.parse name with
  | .error e => pure (.error e)
  | .ok qualified =>
    let name := qualified.text
    let id ← match ← Op.read (·.metadata.types.get? name) with
      | some record => pure record.id
      | none => freshId
    let record : TypeRecord := ⟨id, type, auto⟩
    let outcome ← Op.update fun s =>
      let (types, outcome) := s.metadata.types.define name record
      ({ s with metadata := { s.metadata with types := types } }, outcome)
    recordIf (!auto && !outcome.isIgnored) (.type name outcome.before? (some record))
    match outcome with
    | .added => emit [.typeDefined name type]
    | .updated _ =>
      emit (.typeDefined name type ::
        (← Op.read fun s => TypeLibrary.mentionEvents s.metadata name))
    | .unchanged _ => emit []
    | .ignored => pure ()
    pure (.ok id)

def undefineType (name : String) (auto : Bool) : Op Bool := do
  let removed ← Op.update fun s =>
    let (types, removed) := s.metadata.types.undefine name auto
    ({ s with metadata := { s.metadata with types := types } }, removed)
  match removed with
  | none => pure false
  | some record =>
    let mentions ← Op.read fun s => TypeLibrary.mentionEvents s.metadata name
    recordIf (!auto) (.type name (some record) none)
    emit (.typeUndefined name record.type :: mentions)
    pure true

def renameType (old new : String) : Op (Except AtlasError Bool) := do
  match QualifiedName.parse new with
  | .error e => pure (.error e)
  | .ok qualified =>
    let new := qualified.text
    let types ← Op.read (·.metadata.types)
    if types.contains new then
      pure (.error (.invalidArgument s!"type {new} already exists"))
    else
      match types.get? old with
      | none => pure (.ok false)
      | some typeRecord =>
        editMetadata fun m => { m with types := (m.types.erase old).insert new typeRecord }
        if !typeRecord.auto then
          .modify fun s => { s with undoLog :=
            (((s.undoLog.begin.record (.type old (some typeRecord) none)).record
              (.type new none (some typeRecord))).commit).1 }
        emit [.typeUndefined old typeRecord.type, .typeDefined new typeRecord.type]
        pure (.ok true)

def restoreType (name : String) (state : Option TypeRecord) : Op Unit := do
  let before ← Op.read (·.metadata.types.get? name)
  editMetadata fun m => { m with types := m.types.alter name fun _ => state }
  let mentions ← Op.read fun s => TypeLibrary.mentionEvents s.metadata name
  match before, state with
  | none, some new => emit [.typeDefined name new.type]
  | some old, none => emit (.typeUndefined name old.type :: mentions)
  | some old, some new =>
    if old.type = new.type then emit [] else emit (.typeDefined name new.type :: mentions)
  | none, none => emit []

def type? (s : Space) (name : String) : Except AtlasError (Option DataType) :=
  TypeLibrary.resolve s.metadata.types name

def typeName? (s : Space) (id : Uuid) : Option String :=
  (s.metadata.types.entries.find? (·.2.id == id)).map (·.1)

def typeById? (s : Space) (id : Uuid) : Except AtlasError (Option DataType) :=
  match s.typeName? id with
  | some name => s.type? name
  | none => .ok none

def typeId? (s : Space) (name : String) : Option Uuid :=
  (s.metadata.types.get? name).map (·.id)

def isTypeAuto (s : Space) (name : String) : Bool :=
  (s.metadata.types.get? name).any (·.auto)

end Space

end BinaryAtlas
