import BinaryAtlas.Word

/-!
Hexadecimal text of words: lowercase digits, no leading zeros.
-/

set_option autoImplicit false

namespace BinaryAtlas

def hexDigits (n : Nat) : String :=
  String.ofList (Nat.toDigits 16 n)

def Word.hexText (a : Word) : String :=
  "0x" ++ hexDigits a.toNat

def hexDigitsUpper (n : Nat) : String :=
  String.ofList ((Nat.toDigits 16 n).map Char.toUpper)

def hexDigitsPadded (width n : Nat) : String :=
  let digits := Nat.toDigits 16 n
  String.ofList (List.replicate (width - digits.length) '0' ++ digits)

def hexOfBytes (bytes : List UInt8) : String :=
  String.join (bytes.map fun b => hexDigitsPadded 2 b.toNat)

end BinaryAtlas
