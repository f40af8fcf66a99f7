import BinaryAtlas.Json
import BinaryAtlas.Named
import BinaryAtlas.Word

/-!
The fields of a request, which is a JSON object. A field that is missing or null has the value that
means nothing: zero, false, no text, no items. Numbers above the range of other tools are texts,
in hexadecimal after `0x` and in decimal otherwise.
-/

set_option autoImplicit false

namespace BinaryAtlas

namespace Request

def field? (j : Json) (key : String) : Option Json :=
  match j.last? key with
  | some .null => none
  | found => found

def field (j : Json) (key : String) : Json := (field? j key).getD .null

def given (j : Json) (key : String) : Bool := (field? j key).isSome

def digitValue (c : Char) : Nat :=
  if c.isDigit then c.toNat - '0'.toNat
  else if c.isUpper then c.toNat - 'A'.toNat + 10
  else c.toNat - 'a'.toNat + 10

def digitsValue (base : Nat) (digits : List Char) : Nat :=
  digits.foldl (fun n c => n * base + digitValue c) 0

def numberOfText : List Char → Nat
  | '0' :: 'x' :: digits => digitsValue 16 digits
  | digits => digitsValue 10 digits

def toNumber : Json → Nat
  | .number (.integer i) => i.toNat
  | .string t => numberOfText t.toList
  | _ => 0

def toSigned (j : Json) : Int :=
  -- A number that may be negative; it then is a text that starts with a sign.
  match (j.string?.getD "").toList with
  | '-' :: digits => -(numberOfText digits : Int)
  | _ => toNumber j

def toWord (j : Json) : Word := .ofNat (toNumber j)

def toText (j : Json) : String := j.string?.getD ""

def toItems (j : Json) : List Json := j.items?.getD []

def toFlag (j : Json) : Bool := j.bool?.getD false

def item (j : Json) (i : Nat) : Json := (toItems j).getD i .null

def number (j : Json) (key : String) : Nat := toNumber (field j key)

def word (j : Json) (key : String) : Word := toWord (field j key)

def word? (j : Json) (key : String) : Option Word := (field? j key).map toWord

def flag (j : Json) (key : String) : Bool := toFlag (field j key)

def text (j : Json) (key : String) : String := toText (field j key)

def text? (j : Json) (key : String) : Option String := (field? j key).map toText

def items (j : Json) (key : String) : List Json := toItems (field j key)

def words (j : Json) (key : String) : List Word := (items j key).map toWord

def texts (j : Json) (key : String) : List String := (items j key).map toText

def toChoice {α : Type} [Named α] [Inhabited α] (j : Json) : α :=
  (Named.find? (toText j) : Option α).getD default

def choice {α : Type} [Named α] [Inhabited α] (j : Json) (key : String) : α :=
  toChoice (field j key)

def bytesOfHex : List Char → List UInt8
  | high :: low :: rest => (digitsValue 16 [high, low]).toUInt8 :: bytesOfHex rest
  | _ => []

/-- Bytes as digits, as a text, or as digits that are repeated. -/
def toPlainBytes (j : Json) : List UInt8 :=
  match j with
  | .string digits => bytesOfHex digits.toList
  | _ =>
    match field? j "text" with
    | some t => (toText t).toUTF8.toList
    | none => (List.replicate (number j "repeat") (bytesOfHex (text j "hex").toList)).flatten

def toBytes : Json → List UInt8
  | .array pieces => pieces.flatMap toPlainBytes
  | j => toPlainBytes j

def bytes (j : Json) (key : String) : List UInt8 := toBytes (field j key)

end Request

end BinaryAtlas
