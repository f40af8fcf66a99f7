import BinaryAtlas.Architecture
import BinaryAtlas.Text.Blank

/-!
Instructions known by their text alone. What a branch does and where it goes is read off the
mnemonic and the operands, by the rules of each family of instruction sets.
-/

set_option autoImplicit false

namespace BinaryAtlas

inductive Family where
  | arm
  | arm64
  | mips
  | powerPC
  | riscV
  deriving DecidableEq, Inhabited

namespace Mnemonic

def hexDigit? (c : Char) : Option Nat :=
  if c.isDigit then some (c.toNat - 48)
  else if 'a' ≤ c ∧ c ≤ 'f' then some (c.toNat - 87)
  else if 'A' ≤ c ∧ c ≤ 'F' then some (c.toNat - 55)
  else none

def digitsValue? (base : Nat) (digits : List Char) : Option Nat :=
  if digits.isEmpty then none
  else digits.foldlM
    (fun n c => (hexDigit? c).bind fun d => if d < base then some (base * n + d) else none) 0

/-- An immediate operand: hexadecimal behind `0x` or else decimal, perhaps behind `#` and a minus.
The value wraps around to a word. -/
def immediate? (text : List Char) : Option Word :=
  let cs := (trim text).dropWhile (· = '#')
  let (negative, cs) := match cs with
    | '-' :: rest => (true, rest)
    | cs => (false, cs)
  let value? := match cs with
    | '0' :: 'x' :: digits => (digitsValue? 16 digits).filter (· < 0x10000000000000000)
    | digits => (digitsValue? 10 digits).filter (· < 0x8000000000000000)
  value?.map fun n => if negative then 0 - .ofNat n else .ofNat n

def armConditions : List String :=
  ["eq", "ne", "cs", "hs", "cc", "lo", "mi", "pl", "vs", "vc", "hi", "ls", "ge", "lt", "gt", "le"]

def startsWith (start text : String) : Bool := start.toList.isPrefixOf text.toList

def occursIn (part : List Char) : List Char → Bool
  | [] => part.isEmpty
  | c :: rest => part.isPrefixOf (c :: rest) || occursIn part rest

def holds (part text : String) : Bool := occursIn part.toList text.toList

def conditionalB (m : String) : Option BranchKind :=
  if startsWith "b" m then some .conditional else none

def branchKind? (family : Family) (m operands : String) : Option BranchKind :=
  match family with
  | .arm64 =>
    if ["ret", "retaa", "retab"].contains m then some .return
    else if ["bl", "blr"].contains m then some .call
    else if m = "br" then some .indirect
    else if m = "b" then some .unconditional
    else if ["cbz", "cbnz", "tbz", "tbnz"].contains m || startsWith "b." m then some .conditional
    else none
  | .arm =>
    if ["bl", "blx"].contains m then some .call
    else if m = "bx" then some (if operands = "lr" then .return else .indirect)
    else if m = "b" then some .unconditional
    else if ["pop", "ldm"].contains m && holds "pc" operands then some .return
    else if ["cbz", "cbnz"].contains m then some .conditional
    else if startsWith "b" m && armConditions.contains (String.ofList (m.toList.drop 1)) then
      some .conditional
    else none
  | .mips =>
    if ["jal", "bal", "jalr"].contains m then some .call
    else if m = "jr" then some (if holds "ra" operands then .return else .indirect)
    else if ["j", "b"].contains m then some .unconditional
    else if m = "break" then some .exception
    else conditionalB m
  | .powerPC =>
    if ["bl", "bctrl"].contains m then some .call
    else if m = "blr" then some .return
    else if m = "bctr" then some .indirect
    else if ["b", "ba"].contains m then some .unconditional
    else conditionalB m
  | .riscV =>
    if m = "ret" then some .return
    else if ["jal", "jalr"].contains m &&
        (operands = "" || startsWith "ra" operands || !holds "," operands) then some .call
    else if m = "jr" then some (if operands = "ra" then .return else .indirect)
    else if m = "jalr" then some .indirect
    else if ["j", "jal"].contains m then some .unconditional
    else conditionalB m

def plain (mnemonic : String) : String :=
  let m := mnemonic.toList.map Char.toLower
  String.ofList (if ['c', '.'].isPrefixOf m then m.drop 2 else m)

def lastOperand (operands : List Char) : List Char :=
  (operands.reverse.takeWhile (· ≠ ',')).reverse

def branches (family : Family) (mnemonic operands : String) : List Branch :=
  match branchKind? family (plain mnemonic) (String.ofList (operands.toList.map Char.toLower)) with
  | none => []
  | some kind =>
    match kind with
    | .return | .indirect | .exception => [⟨kind, none⟩]
    | _ => [⟨kind, immediate? (lastOperand operands.toList)⟩]

/-- The token of a word between marks: an immediate, which may be the branch target, or else a
register. -/
def wordToken (target : Option Word) (word : List Char) : Token :=
  let text := String.ofList word
  match immediate? word with
  | some value =>
    if some value = target then ⟨.possibleAddress, text, value⟩ else ⟨.integer, text, value⟩
  | none => .plain .register text

def markKind? (c : Char) : Option TokenKind :=
  if c = '[' ∨ c = '(' then some .beginMemoryOperand
  else if c = ']' ∨ c = ')' then some .endMemoryOperand
  else if c = ',' then some .operandSeparator
  else if c = ' ' ∨ c = '\x7b' ∨ c = '\x7d' ∨ c = '!' then some .text
  else none

def operandTokens (target : Option Word) (word : List Char) : List Char → List Token
  -- The tokens of operands; `word` holds the characters since the last mark, last one first.
  | [] => if word.isEmpty then [] else [wordToken target word.reverse]
  | c :: rest =>
    match markKind? c with
    | some kind =>
      (if word.isEmpty then [] else [wordToken target word.reverse]) ++
        .plain kind c.toString :: operandTokens target [] rest
    | none => operandTokens target (c :: word) rest

def instruction (family : Family) (length : Nat) (mnemonic operands : String) : Instruction :=
  let found := branches family mnemonic operands
  let target := found.head?.bind (·.target)
  let name := Token.plain .instruction mnemonic
  let tokens :=
    if operands = "" then [name]
    else name :: .plain .text " " :: operandTokens target [] operands.toList
  ⟨length, tokens, found⟩

end Mnemonic

end BinaryAtlas
