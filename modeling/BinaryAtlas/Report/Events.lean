import BinaryAtlas.ChangeEvent
import BinaryAtlas.Report.Records
import BinaryAtlas.UndoLog

/-!
Records with identifiers as JSON values. Identifiers that were made here are called by the order in
which they are met, so that what is written does not depend on how they are made.
-/

set_option autoImplicit false

namespace BinaryAtlas

abbrev MetIds := List Uuid

/-- A value that takes its names for identifiers from those met before. -/
abbrev Naming (α : Type) : Type := StateM MetIds α

namespace Report

def id (id : Uuid) : Naming Json := do
  if id.value < 0x10000000000000000 then pure (.string s!"u:{id.value}")
  else
    let met ← get
    if !met.contains id then set (met ++ [id])
    let number := met.idxOf id + 1
    pure (.string s!"#{number}")

def fields (l : List (Naming Json)) : Naming Json := do
  let mut written := []
  for field in l do
    written := written ++ [← field]
  pure (.array written)

def list {α : Type} (write : α → Naming Json) (l : List α) : Naming Json := fields (l.map write)

def optional {α : Type} (write : α → Naming Json) : Option α → Naming Json
  | none => pure .null
  | some a => write a

def tagType (t : TagType) : Naming Json :=
  fields [id t.id, pure (.string t.name), pure (.string t.icon), pure (.bool t.visible),
    pure (name t.kind)]

def tag (t : Tag) : Naming Json := fields [id t.id, id t.type, pure (.string t.data)]

def tagReference (r : TagReference) : Naming Json :=
  fields [pure (hex r.address), tag r.tag, pure (.bool r.auto)]

def typeRecord (r : TypeRecord) : Naming Json :=
  fields [id r.id, pure (type r.type), pure (.bool r.auto)]

def payload : ChangeEvent → List (Naming Json)
  | .dataWritten offset length | .dataInserted offset length | .dataRemoved offset length =>
    [pure (hex offset), pure (hex length)]
  | .functionAdded start | .functionRemoved start | .functionUpdated start
  | .functionUpdateRequested start => [pure (hex start)]
  | .variableAdded v | .variableRemoved v | .variableUpdated v => [pure (variable_ v)]
  | .commentUpdated offset => [pure (hex offset)]
  | .tagTypeUpdated t => [tagType t]
  | .tagAdded r | .tagUpdated r | .tagRemoved r => [tagReference r]
  | .symbolAdded s | .symbolUpdated s | .symbolRemoved s => [pure (symbol s)]
  | .stringFound s | .stringRemoved s => [pure (string s)]
  | .typeDefined name t | .typeUndefined name t => [pure (.string name), pure (type t)]
  | .typeReferenceChanged name place | .typeFieldReferenceChanged name place =>
    [pure (.string name), pure (hex place)]
  | .valueUpdated key => [pure (.string key)]
  | .segmentAdded s | .segmentRemoved s => [pure (segment s)]
  | .sectionAdded s | .sectionRemoved s => [pure (section_ s)]

def event (e : ChangeEvent) : Naming Json := fields (pure (.string e.name) :: payload e)

def undoFields : UndoAction → List (Naming Json)
  | .write a before after => [pure (hex a), pure (bytes before), pure (bytes after)]
  | .insert a l | .remove a l => [pure (hex a), pure (bytes l)]
  | .segment start before after =>
    [pure (hex start), pure (.optional segment before), pure (.optional segment after)]
  | .section name before after =>
    [pure (.string name), pure (.optional section_ before), pure (.optional section_ after)]
  | .variable a before after =>
    [pure (hex a), pure (.optional variable_ before), pure (.optional variable_ after)]
  | .symbol key before after =>
    [pure (hex key.address), pure (.string key.scope), pure (.optional symbol before),
      pure (.optional symbol after)]
  | .type name before after =>
    [pure (.string name), optional typeRecord before, optional typeRecord after]
  | .comment a before after => [pure (hex a), pure (text? before), pure (text? after)]
  | .value key before after =>
    [pure (.string key), pure (before.getD .null), pure (after.getD .null)]
  | .function a before after => [pure (hex a), pure (.bool before), pure (.bool after)]
  | .tag key before after =>
    [pure (hex key.address), id key.tag, optional tagReference before, optional tagReference after]
  | .reference source target before after =>
    [pure (hex source), pure (hex target), pure (.bool before), pure (.bool after)]

def undoAction (action : UndoAction) : Naming Json :=
  fields (pure (.string action.name) :: undoFields action)

def undoEntry (entry : UndoEntry) : Naming Json := list undoAction entry

end Report

end BinaryAtlas
