import BinaryAtlas.Space

/-!
Comments at addresses, and values by key.
-/

set_option autoImplicit false

namespace BinaryAtlas

namespace Space

def setComment (a : Word) (text : String) : Op Unit := do
  let before ← Op.read (·.metadata.comments.get? a)
  let after := if text = "" then none else some text
  editMetadata fun m => { m with comments := m.comments.alter a fun _ => after }
  if before = after then pure ()
  else
    record (.comment a before after)
    emit [.commentUpdated a]

/-- Stores a value under a key, in place of an older one of either provenance. Nobody is told of a
value that agrees with the older one. -/
def storeValue (key : String) (value : Json) (auto : Bool) : Op Unit := do
  let before ← Op.read (·.metadata.values.get? key)
  editMetadata fun m => { m with values := m.values.insert key (value, auto) }
  if before.any fun old => old.1.agrees value && old.2 == auto then pure ()
  else
    recordIf (!auto) (.value key (before.map (·.1)) (some value))
    emit [.valueUpdated key]

def removeValue (key : String) : Op Bool := do
  match ← Op.read (·.metadata.values.get? key) with
  | none => pure false
  | some (value, auto) =>
    editMetadata fun m => { m with values := m.values.erase key }
    recordIf (!auto) (.value key (some value) none)
    emit [.valueUpdated key]
    pure true

def restoreValue (key : String) (state : Option Json) : Op Unit := do
  -- Puts the value of a key into a former state; what is put back counts as the user's.
  match state with
  | some value => storeValue key value false
  | none => discard (removeValue key)

end Space

end BinaryAtlas
