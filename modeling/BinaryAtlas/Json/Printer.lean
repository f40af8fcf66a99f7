import BinaryAtlas.Json
import BinaryAtlas.Text.Hexadecimal

/-!
JSON text. `Json.compress` writes a value on one line without blanks and `Json.pretty` one member or
item a line, indented by two blanks a level.
-/

set_option autoImplicit false

namespace BinaryAtlas

namespace Numeral

def withoutZeros : Nat → Nat → Int → Nat × Int
  | 0, m, e => (m, e)
  | fuel + 1, m, e => if m % 10 = 0 && m != 0 then withoutZeros fuel (m / 10) (e + 1) else (m, e)

def decimalText (mantissa : Nat) (exponent : Int) : String :=
  -- Decimals are written positionally while the point stands within 16 digits right or 5 places
  -- left of the first digit, and always show a point or an exponent. The exponent has a sign.
  let (m, e) := withoutZeros (Nat.toDigits 10 mantissa).length mantissa exponent
  if m = 0 then "0.0"
  else
    let digits := Nat.toDigits 10 m
    let point := e + digits.length
    if 0 ≤ e ∧ point ≤ 16 then
      String.ofList (digits ++ List.replicate e.toNat '0') ++ ".0"
    else if 0 < point ∧ point ≤ 16 then
      String.ofList (digits.take point.toNat) ++ "." ++ String.ofList (digits.drop point.toNat)
    else if -5 < point ∧ point ≤ 0 then
      "0." ++ String.ofList (List.replicate (-point).toNat '0' ++ digits)
    else
      let tail := digits.drop 1
      String.ofList (digits.take 1) ++ (if tail.isEmpty then "" else "." ++ String.ofList tail)
        ++ (if 0 < point then "e+" else "e") ++ toString (point - 1)

def text : Numeral → String
  | .integer i => toString i
  | .decimal negative m e => (if negative then "-" else "") ++ decimalText m e

end Numeral

namespace Json

def escapeChar (c : Char) : List Char :=
  if c = '"' then ['\\', '"']
  else if c = '\\' then ['\\', '\\']
  else if c = '\n' then ['\\', 'n']
  else if c = '\r' then ['\\', 'r']
  else if c = '\t' then ['\\', 't']
  else if c = '\x08' then ['\\', 'b']
  else if c = '\x0c' then ['\\', 'f']
  else if c.toNat < 0x20 then ['\\', 'u'] ++ (hexDigitsPadded 4 c.toNat).toList
  else [c]

def quote (s : String) : String :=
  String.ofList ('"' :: (s.toList.flatMap escapeChar ++ ['"']))

mutual
def compress : Json → String
  | .null => "null"
  | .bool b => if b then "true" else "false"
  | .number n => n.text
  | .string s => quote s
  | .array items => "[" ++ compressItems items ++ "]"
  | .object members => "\x7b" ++ compressMembers members ++ "\x7d"
termination_by structural v => v

def compressItems : List Json → String
  | [] => ""
  | [v] => compress v
  | v :: w :: rest => compress v ++ "," ++ compressItems (w :: rest)
termination_by structural l => l

def compressMembers : List (String × Json) → String
  | [] => ""
  | [(name, v)] => quote name ++ ":" ++ compress v
  | (name, v) :: w :: rest => quote name ++ ":" ++ compress v ++ "," ++ compressMembers (w :: rest)
termination_by structural l => l
end

def newline (depth : Nat) : String :=
  String.ofList ('\n' :: List.replicate (2 * depth) ' ')

mutual
def prettyAt (depth : Nat) : Json → String
  | .null => "null"
  | .bool b => if b then "true" else "false"
  | .number n => n.text
  | .string s => quote s
  | .array [] => "[]"
  | .array (v :: rest) =>
    "[" ++ newline (depth + 1) ++ prettyAt (depth + 1) v ++ prettyItems (depth + 1) rest
      ++ newline depth ++ "]"
  | .object [] => "\x7b\x7d"
  | .object ((name, v) :: rest) =>
    "\x7b" ++ newline (depth + 1) ++ quote name ++ ": " ++ prettyAt (depth + 1) v
      ++ prettyMembers (depth + 1) rest ++ newline depth ++ "\x7d"
termination_by structural v => v

def prettyItems (depth : Nat) : List Json → String
  | [] => ""
  | v :: rest => "," ++ newline depth ++ prettyAt depth v ++ prettyItems depth rest
termination_by structural l => l

def prettyMembers (depth : Nat) : List (String × Json) → String
  | [] => ""
  | (name, v) :: rest =>
    "," ++ newline depth ++ quote name ++ ": " ++ prettyAt depth v ++ prettyMembers depth rest
termination_by structural l => l
end

def pretty (v : Json) : String := prettyAt 0 v

end Json

end BinaryAtlas
