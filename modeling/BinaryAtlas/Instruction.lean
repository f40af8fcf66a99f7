import BinaryAtlas.Named
import BinaryAtlas.Word

/-!
Decoded instructions: length, text in tokens, and where control may go next.
-/

set_option autoImplicit false

namespace BinaryAtlas

inductive TokenKind where
  | text
  | instruction
  | operandSeparator
  | register
  | integer
  | possibleAddress
  | beginMemoryOperand
  | endMemoryOperand
  | address
  | remark
  | keyword
  | functionName
  | dataSymbol
  | hex
  | typeName
  deriving DecidableEq, Inhabited

namespace TokenKind

instance : Named TokenKind where
  all := [text, instruction, operandSeparator, register, integer, possibleAddress,
    beginMemoryOperand, endMemoryOperand, address, remark, keyword, functionName, dataSymbol,
    hex, typeName]
  name
    | text => "Text"
    | instruction => "Instruction"
    | operandSeparator => "OperandSeparator"
    | register => "Register"
    | integer => "Integer"
    | possibleAddress => "PossibleAddress"
    | beginMemoryOperand => "BeginMemoryOperand"
    | endMemoryOperand => "EndMemoryOperand"
    | address => "Address"
    | remark => "Annotation"
    | keyword => "Keyword"
    | functionName => "FunctionName"
    | dataSymbol => "DataSymbol"
    | hex => "Hex"
    | typeName => "TypeName"

end TokenKind

structure Token where
  kind : TokenKind
  text : String
  value : Word
  deriving DecidableEq, Inhabited

namespace Token

def plain (kind : TokenKind) (text : String) : Token := ⟨kind, text, 0⟩

def isNumeric (t : Token) : Bool :=
  t.kind == .integer || t.kind == .possibleAddress || t.kind == .address

def render (tokens : List Token) : String := String.join (tokens.map (·.text))

end Token

inductive BranchKind where
  | unconditional
  | conditional
  | call
  | return
  | indirect
  | exception
  deriving DecidableEq, Inhabited

namespace BranchKind

instance : Named BranchKind where
  all := [.unconditional, .conditional, .call, .return, .indirect, .exception]
  name
    | .unconditional => "Unconditional"
    | .conditional => "Conditional"
    | .call => "Call"
    | .return => "Return"
    | .indirect => "Indirect"
    | .exception => "Exception"

def leaves : BranchKind → Bool
  -- Control does not come back to the next instruction.
  | .unconditional | .return | .indirect | .exception => true
  | .conditional | .call => false

end BranchKind

structure Branch where
  kind : BranchKind
  target : Option Word
  deriving DecidableEq, Inhabited

/-- One decoded instruction; length zero says that the bytes are none. -/
structure Instruction where
  length : Nat
  tokens : List Token
  branches : List Branch
  deriving DecidableEq, Inhabited

namespace Instruction

def undecodable : Instruction := ⟨0, [], []⟩

def isValid (i : Instruction) : Bool := 0 < i.length

def endsFlow (i : Instruction) : Bool := i.branches.any (·.kind.leaves)

def endsBlock (i : Instruction) : Bool := i.branches.any (·.kind != .call)

def text (i : Instruction) : String := Token.render i.tokens

end Instruction

end BinaryAtlas
