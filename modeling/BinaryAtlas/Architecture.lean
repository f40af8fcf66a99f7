import BinaryAtlas.Endianness
import BinaryAtlas.Instruction

/-!
Instruction sets: how their instructions are decoded, and their sizes.
-/

set_option autoImplicit false

namespace BinaryAtlas

structure Architecture where
  name : String
  addressSize : Nat
  endianness : Endianness
  maxInstructionLength : Nat
  instructionAlignment : Nat
  /-- The instruction at the front of some bytes, which stand at this address. -/
  decode : List UInt8 → Word → Instruction

namespace Architecture

instance : Inhabited Architecture := ⟨⟨"", 8, .little, 1, 1, fun _ _ => .undecodable⟩⟩

def text (a : Architecture) : String := "Architecture \x7b name: \"" ++ a.name ++ "\" \x7d"

end Architecture

end BinaryAtlas
