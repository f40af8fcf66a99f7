import BinaryAtlas.Space.Variables

/-!
Symbols in a space.
-/

set_option autoImplicit false

namespace BinaryAtlas

namespace Space

def defineSymbol (symbol : Symbol) : Op Unit := do
  let outcome ← Op.update fun s =>
    let (symbols, outcome) := s.metadata.symbols.define symbol.key symbol
    ({ s with metadata := { s.metadata with symbols := symbols } }, outcome)
  recordIf (!symbol.auto && !outcome.isIgnored)
    (.symbol symbol.key outcome.before? (some symbol))
  match outcome with
  | .added => emit [.symbolAdded symbol]
  | .updated _ => emit [.symbolUpdated symbol]
  | .unchanged _ | .ignored => pure ()

def undefineSymbol (key : SymbolKey) (auto : Bool) : Op Bool := do
  let removed ← Op.update fun s =>
    let (symbols, removed) := s.metadata.symbols.undefine key auto
    ({ s with metadata := { s.metadata with symbols := symbols } }, removed)
  match removed with
  | none => pure false
  | some symbol =>
    recordIf (!auto) (.symbol key (some symbol) none)
    emit [.symbolRemoved symbol]
    pure true

def restoreSymbol (key : SymbolKey) (state : Option Symbol) : Op Unit := do
  let before ← Op.read (·.metadata.symbols.get? key)
  editMetadata fun m => { m with symbols := m.symbols.alter key fun _ => state }
  emit (transition .symbolAdded .symbolRemoved .symbolUpdated before state)

/-- An imported function has two symbols: the slot that holds its address, and the function. -/
def defineImport (slot : Symbol) (function : Word) : Op Unit := do
  defineSymbol { slot with kind := .importAddress, auto := true }
  defineSymbol
    { Symbol.ofRawName .importedFunction function slot.rawName with scope := slot.scope }

def symbolAt? (s : Space) (a : Word) (scope : String) : Option Symbol :=
  s.metadata.symbols.get? ⟨a, scope⟩

def symbolByRawName? (s : Space) (name scope : String) : Option Symbol :=
  s.metadata.symbols.values.find? fun symbol => symbol.rawName == name && symbol.scope == scope

def symbolsNamed (s : Space) (name : String) : List Symbol :=
  s.metadata.symbols.values.filter (·.hasName name)

def symbolsIn (s : Space) (range : AddressRange) : List Symbol :=
  (s.metadata.symbols.entries.filter (range.contains ·.1.address)).map (·.2)

def symbolsOfKind (s : Space) (kind : SymbolKind) : List Symbol :=
  s.metadata.symbols.values.filter (·.kind == kind)

end Space

end BinaryAtlas
