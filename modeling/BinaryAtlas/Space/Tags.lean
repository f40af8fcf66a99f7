import BinaryAtlas.Space.Variables

/-!
Tags and their types in a space.
-/

set_option autoImplicit false

namespace BinaryAtlas

namespace Space

def addTagType (type : TagType) : Op Unit := do
  let before ← Op.read (·.metadata.tagTypes.get? type.id)
  editMetadata fun m => { m with tagTypes := m.tagTypes.insert type.id type }
  if before = some type then pure () else emit [.tagTypeUpdated type]

def createTagType (name icon : String) : Op TagType := do
  let id ← freshId
  let type : TagType := ⟨id, name, icon, true, .user⟩
  addTagType type
  pure type

def removeTagType (id : Uuid) : Op Bool := do
  match ← Op.read (·.metadata.tagTypes.get? id) with
  | none => pure false
  | some type =>
    let tags ← Op.read fun s => s.metadata.tags.values.filter (·.tag.type == id)
    editMetadata fun m => { m with
      tagTypes := m.tagTypes.erase id
      tags := m.tags.filter (fun _ r => r.tag.type != id) }
    emit (tags.map ChangeEvent.tagRemoved ++ [.tagTypeUpdated type])
    pure true

def tagType? (s : Space) (name : String) : Option TagType :=
  s.metadata.tagTypes.values.find? (·.name == name)

def tagTypes (s : Space) : List TagType :=
  s.metadata.tagTypes.values.mergeSort fun t u => (compare t.name u.name).isLE

def addTag (a : Word) (tag : Tag) (auto : Bool) : Op (Except AtlasError Unit) := do
  if !(← Op.read (·.metadata.tagTypes.contains tag.type)) then
    pure (.error (.notFound s!"tag type {tag.type.text}"))
  else
    let reference : TagReference := ⟨tag, a, auto⟩
    let outcome ← Op.update fun s =>
      let (tags, outcome) := s.metadata.tags.define ⟨a, tag.id⟩ reference
      ({ s with metadata := { s.metadata with tags := tags } }, outcome)
    recordIf (!auto && !outcome.isIgnored) (.tag ⟨a, tag.id⟩ outcome.before? (some reference))
    match outcome with
    | .added => emit [.tagAdded reference]
    | .updated _ => emit [.tagUpdated reference]
    | .unchanged _ | .ignored => pure ()
    pure (.ok ())

def createTag (a : Word) (type : Uuid) (data : String) (auto : Bool) :
    Op (Except AtlasError Tag) := do
  let tag : Tag := ⟨← freshId, type, data⟩
  match ← addTag a tag auto with
  | .ok () => pure (.ok tag)
  | .error e => pure (.error e)

def removeTag (a : Word) (id : Uuid) (auto : Bool) : Op Bool := do
  let removed ← Op.update fun s =>
    let (tags, removed) := s.metadata.tags.undefine ⟨a, id⟩ auto
    ({ s with metadata := { s.metadata with tags := tags } }, removed)
  match removed with
  | none => pure false
  | some reference =>
    recordIf (!auto) (.tag ⟨a, id⟩ (some reference) none)
    emit [.tagRemoved reference]
    pure true

def tagsAt (s : Space) (a : Word) : List TagReference :=
  (s.metadata.tags.entries.filter (·.1.address == a)).map (·.2)

def tagsIn (s : Space) (range : AddressRange) : List TagReference :=
  (s.metadata.tags.entries.filter (range.contains ·.1.address)).map (·.2)

def tagsOfType (s : Space) (type : Uuid) : List TagReference :=
  s.metadata.tags.values.filter (·.tag.type == type)

def removeTags (a : Word) (auto : Bool) : List Uuid → Op Nat
  | [] => pure 0
  | id :: rest => do
    let removed ← removeTag a id auto
    let more ← removeTags a auto rest
    pure (removed.toNat + more)

def removeTagsOfType (a : Word) (type : Uuid) (auto : Bool) : Op Nat := do
  let tags ← Op.read (·.tagsAt a)
  removeTags a auto
    ((tags.filter fun r => r.tag.type == type && r.auto == auto).map (·.tag.id))

def restoreTag (key : TagKey) (state : Option TagReference) : Op Unit := do
  let before ← Op.read (·.metadata.tags.get? key)
  editMetadata fun m => { m with tags := m.tags.alter key fun _ => state }
  emit (transition .tagAdded .tagRemoved .tagUpdated before state)

def updateTag (id : Uuid) (data : String) : Op Nat := do
  -- Gives a tag other data wherever it hangs; the answer counts the places.
  let before ← Op.read fun s => s.metadata.tags.values.filter fun r =>
    r.tag.id == id && r.tag.data != data
  let changed := fun (r : TagReference) => { r with tag := { r.tag with data := data } }
  editMetadata fun m => { m with
    tags := m.tags.mapValues fun _ r => if r.tag.id == id then changed r else r }
  (before.filter (!·.auto)) |> Op.forEach fun r =>
    record (.tag ⟨r.address, id⟩ (some r) (some (changed r)))
  emit (before.map fun r => .tagUpdated (changed r))
  pure before.length

end Space

end BinaryAtlas
