import BinaryAtlas.Declaration.Parser
import BinaryAtlas.Space.Bytes

/-!
Reading C declarations against the types of a space. The size of pointers is that of its
architecture.
-/

set_option autoImplicit false

namespace BinaryAtlas

namespace Space

def setArchitecture (architecture : Option Architecture) : Op Unit :=
  .modify fun s => { s with architecture := architecture }

def requireArchitecture (s : Space) : Except AtlasError Architecture :=
  match s.architecture with
  | some a => .ok a
  | none => .error .missingArchitecture

def declarationContext (s : Space) : Except AtlasError DeclarationContext := do
  let architecture ← s.requireArchitecture
  let context : DeclarationContext := ⟨.ofNat architecture.addressSize, .empty⟩
  pure (context.withTypes (s.metadata.types.entries.map fun e => (e.1, e.2.type)))

def parseType (s : Space) (text : String) : Except AtlasError (DataType × QualifiedName) := do
  (← s.declarationContext).parseType text

def parseTypes (s : Space) (text : String) : Except AtlasError Declarations := do
  (← s.declarationContext).parseTypes text

end Space

end BinaryAtlas
