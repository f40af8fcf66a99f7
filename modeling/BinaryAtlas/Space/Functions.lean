import BinaryAtlas.Space.Bytes
import BinaryAtlas.Space.References

/-!
The functions of a space. A user may claim a function that analysis found; only its own side can
remove it.
-/

set_option autoImplicit false

namespace BinaryAtlas

namespace Space

def insertFunction (a : Word) : Op Bool := do
  if !(← Op.read (·.isValid a)) then pure false
  else
    let new ← Op.update fun s =>
      let (functions, new) := s.functions.add a true
      ({ s with functions := functions }, new)
    if new then editScheduler (·.noteSubmit a)
    pure new

def addFunction (a : Word) : Op Bool := do
  let new ← insertFunction a
  if new then emit [.functionAdded a]
  pure new

def addFoundFunction (a : Word) : Op Unit := do
  -- As analysis adds a function: no further run is requested.
  if ← insertFunction a then tellQuietly [.functionAdded a]

def createUserFunction (a : Word) : Op Bool := do
  if !(← Op.read (·.isValid a)) then pure false
  else
    match ← Op.read (·.functions.functions.get? a) with
    | some f =>
      if !f.auto then pure false
      else
        editFunctions fun t => { t with functions := t.functions.insert a { f with auto := false } }
        record (.function a false true)
        editScheduler (·.noteSubmit a)
        emit [.functionUpdated a]
        pure true
    | none =>
      editFunctions fun t => (t.add a false).1
      record (.function a false true)
      editScheduler (·.noteSubmit a)
      emit [.functionAdded a]
      pure true

/-- Removes a function of one provenance, and the automatic references from its blocks. -/
def removeFunction (a : Word) (auto : Bool) : Op Bool := do
  match ← Op.read (·.functions.functions.get? a) with
  | none => pure false
  | some f =>
    if f.auto != auto then pure false
    else
      editFunctions fun t =>
        { t with functions := t.functions.erase a, queue := t.queue.erase a }
      replaceReferences (f.blocks.map fun b => ⟨b.start, b.stop⟩) []
      recordIf (!auto) (.function a true false)
      emit [.functionRemoved a]
      pure true

def addEntryPoint (a : Word) : Op Unit := do
  editFunctions fun t =>
    if t.entryPoints.contains a then t else { t with entryPoints := t.entryPoints ++ [a] }
  discard (addFunction a)

def reanalyzeFunction (a : Word) : Op Bool := do
  if !(← Op.read (·.functions.functions.contains a)) then pure false
  else
    editFunctions (·.enqueue a)
    editScheduler (·.noteSubmit a)
    emit [.functionUpdateRequested a]
    pure true

def entryPoint? (s : Space) : Option Word := s.functions.entryPoints.head?

def withSymbolName (s : Space) (f : Function) : Function :=
  -- A function under the name of the symbol at its start, if that is one of a function.
  match s.metadata.symbols.get? ⟨f.start, ""⟩ with
  | some symbol =>
    if symbol.kind == .function || symbol.kind == .libraryFunction ||
        symbol.kind == .importedFunction then
      { f with name := symbol.fullName }
    else f
  | none => f

def functionAt? (s : Space) (a : Word) : Option Function :=
  (s.functions.functions.get? a).map s.withSymbolName

def functionsContaining (s : Space) (a : Word) : List Function :=
  (s.functions.all.filter (·.contains a)).map s.withSymbolName

def allFunctions (s : Space) : List Function := s.functions.all.map s.withSymbolName

end Space

end BinaryAtlas
