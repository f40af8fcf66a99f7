import BinaryAtlas.Architecture
import BinaryAtlas.Text.Hexadecimal

/-!
A made-up instruction set of fifteen instructions, for trying things out. The first byte is the
opcode; it decides what operand follows.
-/

set_option autoImplicit false

namespace BinaryAtlas

namespace Toy

inductive Operand where
  | none
  /-- A signed byte, counted from two bytes behind the opcode. -/
  | relative
  | absolute
  | memory
  | byte
  | word
  | register
  deriving DecidableEq, Inhabited

namespace Operand

def size : Operand → Nat
  | none | register => 0
  | relative | byte => 1
  | absolute | memory => 2
  | word => 4

end Operand

def opcode? (b : UInt8) : Option (String × Operand × List BranchKind) :=
  match b.toNat with
  | 0 => some ("nop", .none, [])
  | 1 => some ("ret", .none, [.return])
  | 2 => some ("jmp", .relative, [.unconditional])
  | 3 => some ("jz", .relative, [.conditional])
  | 4 => some ("call", .relative, [.call])
  | 5 => some ("load", .memory, [])
  | 6 => some ("mov", .byte, [])
  | 7 => some ("jmpr", .register, [.indirect])
  | 8 => some ("trap", .none, [.exception])
  | 9 => some ("callr", .register, [.call])
  | 10 => some ("lea", .word, [])
  | 11 => some ("sw", .relative, [.conditional, .indirect])
  | 12 => some ("jmpa", .absolute, [.unconditional])
  | 13 => some ("calla", .absolute, [.call])
  | 14 => some ("jza", .absolute, [.conditional])
  | _ => none

def signExtend (b : Word) : Word := if b < 0x80 then b else b - 0x100

def operandValue (order : Endianness) (a : Word) (operand : Operand) (bytes : List UInt8) : Word :=
  let value := order.value (bytes.take operand.size)
  if operand = .relative then a + 2 + signExtend value else value

def operandTokens (operand : Operand) (value : Word) : List Token :=
  let space := Token.plain .text " "
  let toRegister := [space, .plain .register "r0"]
  let number := fun kind => (⟨kind, value.hexText, value⟩ : Token)
  match operand with
  | .none => []
  | .register => toRegister
  | .relative | .absolute => [space, number .possibleAddress]
  | .memory =>
    toRegister ++ [.plain .operandSeparator ",", space, .plain .beginMemoryOperand "[",
      number .address, .plain .endMemoryOperand "]"]
  | .byte | .word => toRegister ++ [.plain .operandSeparator ",", space, number .integer]

def branch (operand : Operand) (value : Word) (kind : BranchKind) : Branch :=
  let direct := operand = .relative ∨ operand = .absolute
  match kind with
  | .unconditional | .conditional | .call => ⟨kind, if direct then some value else none⟩
  | _ => ⟨kind, none⟩

def decode (order : Endianness) (bytes : List UInt8) (a : Word) : Instruction :=
  match bytes with
  | [] => .undecodable
  | b :: rest =>
    match opcode? b with
    | none => .undecodable
    | some (mnemonic, operand, branches) =>
      if rest.length < operand.size then .undecodable
      else
        let value := operandValue order a operand rest
        ⟨1 + operand.size, .plain .instruction mnemonic :: operandTokens operand value,
          branches.map (branch operand value)⟩

theorem length_decode_le (order : Endianness) (bytes : List UInt8) (a : Word) :
    (decode order bytes a).length ≤ bytes.length := by
  unfold decode
  cases bytes with
  | nil => exact Nat.le_refl _
  | cons b rest =>
    simp only
    split
    · exact Nat.zero_le _
    · split
      · exact Nat.zero_le _
      · rename_i fits
        simp only [List.length_cons]
        omega

/-- The variant with little-endian operands and addresses of eight bytes. -/
def little : Architecture := ⟨"toy", 8, .little, 5, 1, decode .little⟩

/-- The variant with big-endian operands and addresses of four bytes. -/
def big : Architecture := ⟨"toybe", 4, .big, 5, 1, decode .big⟩

end Toy

end BinaryAtlas
