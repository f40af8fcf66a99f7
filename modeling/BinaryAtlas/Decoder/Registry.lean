import BinaryAtlas.AtlasError
import BinaryAtlas.Decoder.IntelList
import BinaryAtlas.Decoder.Mnemonic
import BinaryAtlas.Decoder.MnemonicList
import BinaryAtlas.Table
import BinaryAtlas.Text.Hexadecimal

/-!
The instruction sets that can be asked for by name.
-/

set_option autoImplicit false

namespace BinaryAtlas

namespace RiscV

def registerNames : List String :=
  ["zero", "ra", "sp", "gp", "tp", "t0", "t1", "t2", "s0", "s1", "a0", "a1", "a2", "a3", "a4",
    "a5", "a6", "a7", "s2", "s3", "s4", "s5", "s6", "s7", "s8", "s9", "s10", "s11", "t3", "t4",
    "t5", "t6"]

def registerName (n : Nat) : String := registerNames.getD n ""

def bits (n first count : Nat) : Nat := (n >>> first) % (1 <<< count)

def signed (n width : Nat) : Int := Int.bmod n (1 <<< width)

def immediateText (i : Int) : String :=
  let n := i.natAbs
  (if i < 0 then "-" else "") ++ (if n ≤ 9 then toString n else "0x" ++ hexDigits n)

def jumpOffset (code : Nat) : Int :=
  signed (bits code 31 1 <<< 20 + bits code 12 8 <<< 12 + bits code 20 1 <<< 11 +
    bits code 21 10 <<< 1) 21

/-- The text of a jump that keeps a return address in some register, `zero` for none. Common cases
have names of their own. -/
def jumpText? (code : Nat) : Option (String × String) :=
  let link := bits code 7 5
  let base := bits code 15 5
  if bits code 0 7 = 0x6f then
    let offset := immediateText (jumpOffset code)
    if link = 0 then some ("j", offset)
    else if link = 1 then some ("jal", offset)
    else some ("jal", registerName link ++ ", " ++ offset)
  else if bits code 0 7 = 0x67 ∧ bits code 12 3 = 0 then
    let offset := signed (bits code 20 12) 12
    if link = 0 ∧ base = 1 ∧ offset = 0 then some ("ret", "")
    else if link = 0 ∧ offset = 0 then some ("jr", registerName base)
    else if link = 1 ∧ offset = 0 then some ("jalr", registerName base)
    else
      some ("jalr", registerName link ++ ", " ++ registerName base ++ ", " ++ immediateText offset)
  else none

end RiscV

namespace Mnemonic

def family? (name : String) : Option Family :=
  if name = "aarch64" then some .arm64
  else if ["armv7", "armv7eb"].contains name then some .arm
  else if ["mips32", "mipsel32", "mips64", "mipsel64"].contains name then some .mips
  else if ["ppc", "ppc_le", "ppc64", "ppc64_le"].contains name then some .powerPC
  else if ["rv32gc", "rv64gc"].contains name then some .riscV
  else none

def text? (name : String) (family : Family) (bytes : List UInt8) (a : Word) :
    Option (String × String) :=
  let code := bytes.take 4
  let found := listed.find? fun i =>
    i.architecture == name && i.address == a && i.bytes == hexOfBytes code
  match found with
  | some i => some (i.mnemonic, i.operands)
  | none =>
    if family = .riscV ∧ code.length = 4 then
      RiscV.jumpText? (Endianness.little.value code).toNat
    else none

def decode (name : String) (family : Family) (bytes : List UInt8) (a : Word) : Instruction :=
  match text? name family bytes a with
  | some (mnemonic, operands) => instruction family 4 mnemonic operands
  | none => .undecodable

def architecture (name : String) (family : Family) (wide : Bool) (order : Endianness) :
    Architecture :=
  ⟨name, if wide then 8 else 4, order, 4, if family = .riscV then 2 else 4, decode name family⟩

end Mnemonic

namespace Intel

def decode (name : String) (bytes : List UInt8) (a : Word) : Instruction :=
  let found := listed.find? fun i =>
    i.architecture == name && i.address == a && i.bytes == hexOfBytes (bytes.take i.length)
  match found with
  | some i => ⟨i.length, i.tokens, i.branches⟩
  | none => .undecodable

def architecture (name : String) (wide : Bool) : Architecture :=
  ⟨name, if wide then 8 else 4, .little, 15, 1, decode name⟩

end Intel

structure ArchitectureRegistry where
  architectures : Table String Architecture

namespace ArchitectureRegistry

def empty : ArchitectureRegistry := ⟨.empty⟩

def register (r : ArchitectureRegistry) (a : Architecture) : ArchitectureRegistry :=
  ⟨r.architectures.insert a.name a⟩

def standard : ArchitectureRegistry :=
  [Intel.architecture "x86" false, Intel.architecture "x86_64" true,
    Mnemonic.architecture "armv7" .arm false .little,
    Mnemonic.architecture "armv7eb" .arm false .big,
    Mnemonic.architecture "mipsel32" .mips false .little,
    Mnemonic.architecture "mips32" .mips false .big,
    Mnemonic.architecture "mipsel64" .mips true .little,
    Mnemonic.architecture "mips64" .mips true .big,
    Mnemonic.architecture "ppc_le" .powerPC false .little,
    Mnemonic.architecture "ppc" .powerPC false .big,
    Mnemonic.architecture "ppc64_le" .powerPC true .little,
    Mnemonic.architecture "ppc64" .powerPC true .big,
    Mnemonic.architecture "aarch64" .arm64 true .little,
    Mnemonic.architecture "rv32gc" .riscV false .little,
    Mnemonic.architecture "rv64gc" .riscV true .little].foldl register empty

def names (r : ArchitectureRegistry) : List String := r.architectures.keys

def size (r : ArchitectureRegistry) : Nat := r.architectures.size

def get? (r : ArchitectureRegistry) (name : String) : Option Architecture :=
  r.architectures.get? name

def require (r : ArchitectureRegistry) (name : String) : Except AtlasError Architecture :=
  match r.get? name with
  | some a => .ok a
  | none => .error (.unsupportedArchitecture name)

end ArchitectureRegistry

end BinaryAtlas
