import BinaryAtlas.AtlasError
import BinaryAtlas.Text.Blank

/-!
The tokens of C declarations. White space and comments separate tokens and are dropped; each token
keeps the number of bytes in front of it.
-/

set_option autoImplicit false

namespace BinaryAtlas

inductive CToken where
  | word (text : String)
  | number (value : Word)
  | mark (symbol : Char)
  | ellipsis
  deriving DecidableEq, Inhabited

structure PlacedToken where
  token : CToken
  offset : Nat
  deriving DecidableEq, Inhabited

namespace CToken

inductive Lexeme where
  | token (t : CToken)
  | skipped
  deriving DecidableEq, Inhabited

def isWordStart (c : Char) : Bool := c.isAlpha || c == '_'

def isWordPart (c : Char) : Bool := c.isAlphanum || c == '_'

def isMark (c : Char) : Bool :=
  ['*', '[', ']', '(', ')', '\x7b', '\x7d', ';', ',', '=', '-'].contains c

def isHexDigit (c : Char) : Bool :=
  c.isDigit || ('a' ≤ c && c ≤ 'f') || ('A' ≤ c && c ≤ 'F')

def isSuffix (c : Char) : Bool := c == 'u' || c == 'U' || c == 'l' || c == 'L'

def digitValue (c : Char) : Nat :=
  if c.isDigit then c.toNat - 48 else if c < 'a' then c.toNat - 55 else c.toNat - 87

def valueInBase (base : Nat) (digits : List Char) : Nat :=
  digits.foldl (fun n c => base * n + digitValue c) 0

def nameLength : Nat → List Char → Nat
  -- The length of a name that begins here: words joined by `::`.
  | 0, _ => 0
  | fuel + 1, cs =>
    let word := (cs.takeWhile isWordPart).length
    match cs.drop word with
    | ':' :: ':' :: c :: rest =>
      if isWordStart c then word + 2 + nameLength fuel (c :: rest) else word
    | _ => word

def blockCommentLength? : List Char → Option Nat
  | '*' :: '/' :: _ => some 2
  | _ :: rest => (blockCommentLength? rest).map (· + 1)
  | [] => none

def commentLength? : List Char → Option Nat
  | '/' :: '/' :: rest => some (2 + (rest.takeWhile (· ≠ '\n')).length)
  | '/' :: '*' :: rest => (blockCommentLength? rest).map (2 + ·)
  | _ => none

def numberDigits (cs : List Char) : Nat × Nat × List Char :=
  match cs with
  | '0' :: x :: rest =>
    let digits := rest.takeWhile isHexDigit
    if (x == 'x' || x == 'X') && !digits.isEmpty then (16, 2, digits)
    else (10, 0, cs.takeWhile Char.isDigit)
  | _ => (10, 0, cs.takeWhile Char.isDigit)

def lexeme (offset : Nat) (cs : List Char) : Except AtlasError (Lexeme × Nat) :=
  match cs with
  | [] => .ok (.skipped, 1)
  | c :: _ =>
    if isBlank c then .ok (.skipped, (cs.takeWhile isBlank).length)
    else
      match commentLength? cs with
      | some length => .ok (.skipped, length)
      | none =>
        if isWordStart c then
          let length := nameLength cs.length cs
          .ok (.token (.word (String.ofList (cs.take length))), length)
        else if c.isDigit then
          let (base, before, digits) := numberDigits cs
          let length := before + digits.length
          let value := valueInBase base digits
          if value < 0x10000000000000000 then
            .ok (.token (.number (.ofNat value)),
              length + ((cs.drop length).takeWhile isSuffix).length)
          else
            let text := "'" ++ String.ofList (cs.take length) ++ "'"
            .error (.parse s!"number {text} out of range at offset {offset}")
        else if ['.', '.', '.'].isPrefixOf cs then .ok (.token .ellipsis, 3)
        else if isMark c then .ok (.token (.mark c), 1)
        else
          let text := "'" ++ c.toString ++ "'"
          .error (.parse s!"unexpected character {text} at offset {offset}")

def byteLength (cs : List Char) : Nat := cs.foldr (fun c n => c.utf8Size + n) 0

def lexFrom (offset : Nat) (cs : List Char) : Except AtlasError (List PlacedToken) :=
  -- The tokens of a text; `offset` counts the bytes in front of it.
  match cs with
  | [] => .ok []
  | c :: rest => do
    let (found, length) ← lexeme offset (c :: rest)
    let taken := c :: rest.take (length - 1)
    let others ← lexFrom (offset + byteLength taken) (rest.drop (length - 1))
    match found with
    | .token t => pure (⟨t, offset⟩ :: others)
    | .skipped => pure others
termination_by cs.length
decreasing_by simp only [List.length_drop, List.length_cons]; omega

def lex (text : String) : Except AtlasError (List PlacedToken) := lexFrom 0 text.toList

end CToken

end BinaryAtlas
