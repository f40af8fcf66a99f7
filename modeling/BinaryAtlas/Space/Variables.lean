import BinaryAtlas.Space

/-!
Typed variables in a space.
-/

set_option autoImplicit false

namespace BinaryAtlas

namespace Space

def defineVariable (v : DataVariable) : Op Unit := do
  let outcome ← Op.update fun s =>
    let (known, outcome) := s.metadata.dataVariables.define v.address v
    ({ s with metadata := { s.metadata with dataVariables := known } }, outcome)
  recordIf (!v.auto && !outcome.isIgnored) (.variable v.address outcome.before? (some v))
  match outcome with
  | .added => emit [.variableAdded v]
  | .updated _ => emit [.variableUpdated v]
  | .unchanged _ | .ignored => pure ()

def undefineVariable (a : Word) (auto : Bool) : Op Bool := do
  let removed ← Op.update fun s =>
    let (known, removed) := s.metadata.dataVariables.undefine a auto
    ({ s with metadata := { s.metadata with dataVariables := known } }, removed)
  match removed with
  | none => pure false
  | some v =>
    recordIf (!auto) (.variable a (some v) none)
    emit [.variableRemoved v]
    pure true

def transition {α : Type} [DecidableEq α] (added removed updated : α → ChangeEvent) :
    Option α → Option α → List ChangeEvent
  | none, some new => [added new]
  | some old, none => [removed old]
  | some old, some new => if old = new then [] else [updated new]
  | none, none => []

def restoreVariable (a : Word) (state : Option DataVariable) : Op Unit := do
  let before ← Op.read (·.metadata.dataVariables.get? a)
  editMetadata fun m => { m with dataVariables := m.dataVariables.alter a fun _ => state }
  emit (transition .variableAdded .variableRemoved .variableUpdated before state)

def variableContaining? (s : Space) (a : Word) : Option DataVariable :=
  -- The variable whose bytes hold an address; of several the one that starts last.
  ((s.metadata.dataVariables.entries.filter (fun e => e.1 ≤ a)).map (·.2)).reverse.find?
    (·.range.contains a)

def variableAfter? (s : Space) (a : Word) : Option DataVariable :=
  (s.metadata.dataVariables.above? a).map (·.2)

def variableBefore? (s : Space) (a : Word) : Option DataVariable :=
  (s.metadata.dataVariables.below? a).map (·.2)

end Space

end BinaryAtlas
