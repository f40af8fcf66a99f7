import BinaryAtlas.Json
import BinaryAtlas.Json.Double
import BinaryAtlas.Json.Interest

/-!
Reading JSON text. `Json.parse?` takes one value with blanks around it and nothing after it, and
`Json.parseFor?` only the parts of it that are wanted. Every reader below takes the characters that
are left and gives back those it did not use.
-/

set_option autoImplicit false

namespace BinaryAtlas

namespace Json

def isBlank (c : Char) : Bool :=
  c = ' ' || c = '\n' || c = '\t' || c = '\r'

def skipBlank (cs : List Char) : List Char := cs.dropWhile isBlank

def decimalValue (digits : List Char) : Nat :=
  digits.foldl (fun n c => 10 * n + (c.toNat - 48)) 0

def readDigits (cs : List Char) : Option (List Char × List Char) :=
  let digits := cs.takeWhile Char.isDigit
  if digits.isEmpty then none else some (digits, cs.dropWhile Char.isDigit)

def readWhole (cs : List Char) : Option (List Char × List Char) :=
  match readDigits cs with
  | some ('0' :: _ :: _, _) => none
  | r => r

def readFraction : List Char → Option (List Char × List Char)
  | '.' :: rest => readDigits rest
  | cs => some ([], cs)

def readExponent : List Char → Option (Option Int × List Char)
  | c :: rest =>
    if c = 'e' ∨ c = 'E' then
      match rest with
      | '-' :: rest => (readDigits rest).map fun (d, r) => (some (-(decimalValue d : Int)), r)
      | '+' :: rest => (readDigits rest).map fun (d, r) => (some (decimalValue d : Int), r)
      | rest => (readDigits rest).map fun (d, r) => (some (decimalValue d : Int), r)
    else some (none, c :: rest)
  | [] => some (none, [])

def readMagnitude (negative : Bool) (cs : List Char) : Option (Option Numeral × List Char) := do
  let (whole, cs) ← readWhole cs
  let (fraction, cs) ← readFraction cs
  let (exponent, cs) ← readExponent cs
  pure (Numeral.ofDigits? negative whole fraction exponent, cs)

def readNumeral : List Char → Option (Option Numeral × List Char)
  | '-' :: rest => readMagnitude true rest
  | cs => readMagnitude false cs

def hexValue? (c : Char) : Option Nat :=
  if '0' ≤ c ∧ c ≤ '9' then some (c.toNat - 48)
  else if 'a' ≤ c ∧ c ≤ 'f' then some (c.toNat - 87)
  else if 'A' ≤ c ∧ c ≤ 'F' then some (c.toNat - 55)
  else none

def readUnit (a b c d : Char) : Option Nat := do
  let a ← hexValue? a
  let b ← hexValue? b
  let c ← hexValue? c
  let d ← hexValue? d
  pure (((a * 16 + b) * 16 + c) * 16 + d)

def unescape? : Char → Option Char
  | '"' => some '"'
  | '\\' => some '\\'
  | '/' => some '/'
  | 'n' => some '\n'
  | 'r' => some '\r'
  | 't' => some '\t'
  | 'b' => some '\x08'
  | 'f' => some '\x0c'
  | _ => none

/-- The characters up to the closing quote. A pair of surrogates stands for one character. A bare
control character is refused, and so is a surrogate alone, unless the string is not wanted: then
something else stands in its place. -/
def readChars (wanted : Bool) : List Char → Option (List Char × List Char)
  | [] => none
  | '"' :: rest => some ([], rest)
  | '\\' :: 'u' :: a :: b :: c :: d :: rest =>
    match readUnit a b c d with
    | none => none
    | some high =>
      if high < 0xd800 ∨ 0xe000 ≤ high then
        (readChars wanted rest).map fun (s, r) => (Char.ofNat high :: s, r)
      else if !wanted then (readChars wanted rest).map fun (s, r) => ('\uFFFD' :: s, r)
      else if high < 0xdc00 then
        match rest with
        | '\\' :: 'u' :: a' :: b' :: c' :: d' :: rest =>
          match readUnit a' b' c' d' with
          | none => none
          | some low =>
            if 0xdc00 ≤ low ∧ low < 0xe000 then
              (readChars wanted rest).map fun (s, r) =>
                (Char.ofNat (0x10000 + (high - 0xd800) * 0x400 + (low - 0xdc00)) :: s, r)
            else none
        | _ => none
      else none
  | '\\' :: c :: rest =>
    match unescape? c with
    | some u => (readChars wanted rest).map fun (s, r) => (u :: s, r)
    | none => none
  | c :: rest =>
    if c.toNat < 0x20 ∨ c = '\\' then none
    else (readChars wanted rest).map fun (s, r) => (c :: s, r)

def readWord (word : List Char) (v : Json) (cs : List Char) : Option (Json × List Char) :=
  if word.isPrefixOf cs then some (v, cs.drop word.length) else none

mutual
def readValue : Nat → Interest → List Char → Option (Json × List Char)
  | 0, _, _ => none
  | fuel + 1, interest, cs =>
    match skipBlank cs with
    | '"' :: rest =>
      (readChars interest.isWanted rest).map fun (s, r) => (.string (String.ofList s), r)
    | '[' :: rest =>
      match interest.inside?, skipBlank rest with
      | none, _ => none
      | some _, ']' :: rest => some (.array [], rest)
      | some inside, rest => (readItems fuel inside rest).map fun (l, r) => (.array l, r)
    | '\x7b' :: rest =>
      match interest.inside?, skipBlank rest with
      | none, _ => none
      | some _, '\x7d' :: rest => some (.object [], rest)
      | some inside, rest => (readMembers fuel inside rest).map fun (l, r) => (.object l, r)
    | 't' :: rest => readWord ['t', 'r', 'u', 'e'] (.bool true) ('t' :: rest)
    | 'f' :: rest => readWord ['f', 'a', 'l', 's', 'e'] (.bool false) ('f' :: rest)
    | 'n' :: rest => readWord ['n', 'u', 'l', 'l'] .null ('n' :: rest)
    | cs =>
      match readNumeral cs with
      | none => none
      | some (some n, r) => some (.number n, r)
      | some (none, r) => if interest.isWanted then none else some (.null, r)

def readItems : Nat → Interest → List Char → Option (List Json × List Char)
  | 0, _, _ => none
  | fuel + 1, interest, cs =>
    match readValue fuel interest.ofFirst cs with
    | none => none
    | some (v, rest) =>
      match skipBlank rest with
      | ',' :: rest => (readItems fuel interest.ofOthers rest).map fun (l, r) => (v :: l, r)
      | ']' :: rest => some ([v], rest)
      | _ => none

def readMembers : Nat → Interest → List Char → Option (List (String × Json) × List Char)
  | 0, _, _ => none
  | fuel + 1, interest, cs =>
    match skipBlank cs with
    | '"' :: rest =>
      match readChars interest.isWanted rest with
      | none => none
      | some (name, rest) =>
        let name := String.ofList name
        match skipBlank rest with
        | ':' :: rest =>
          match readValue fuel (interest.ofMember name) rest with
          | none => none
          | some (v, rest) =>
            match skipBlank rest with
            | ',' :: rest =>
              (readMembers fuel interest rest).map fun (l, r) => ((name, v) :: l, r)
            | '\x7d' :: rest => some ([(name, v)], rest)
            | _ => none
        | _ => none
    | _ => none
end

/-- The value of a text, as far as it is wanted. Each step of a reader uses a character, so twice
the length bounds them. -/
def parseFor? (interest : Interest) (text : String) : Option Json :=
  let cs := text.toList
  match readValue (2 * cs.length + 2) interest cs with
  | some (v, rest) => if (skipBlank rest).isEmpty then some v else none
  | none => none

def mostLevels : Nat := 127

def parse? (text : String) : Option Json := parseFor? (.whole mostLevels) text

end Json

end BinaryAtlas
