import BinaryAtlas.Named
import BinaryAtlas.Text.Hexadecimal

/-!
References from one address to another, and strings that were found in memory.
-/

set_option autoImplicit false

namespace BinaryAtlas

inductive ReferenceKind where
  | code
  | data
  deriving DecidableEq, Inhabited

namespace ReferenceKind

instance : Named ReferenceKind where
  all := [code, data]
  name
    | code => "Code"
    | data => "Data"

end ReferenceKind

structure CrossReference where
  source : Word
  target : Word
  kind : ReferenceKind
  auto : Bool
  deriving DecidableEq, Inhabited

namespace CrossReference

def text (r : CrossReference) : String :=
  r.source.hexText ++ " -> " ++ r.target.hexText ++
    (match r.kind with | .code => " (code)" | .data => " (data)")

end CrossReference

inductive StringKind where
  | ascii
  | utf16
  | utf32
  deriving DecidableEq, Inhabited

namespace StringKind

instance : Named StringKind where
  all := [ascii, utf16, utf32]
  name
    | ascii => "Ascii"
    | utf16 => "Utf16"
    | utf32 => "Utf32"

def unitSize : StringKind → Nat
  | ascii => 1
  | utf16 => 2
  | utf32 => 4

end StringKind

/-- A string in memory; its length in bytes leaves out a terminator. -/
structure StringReference where
  kind : StringKind
  start : Word
  length : Word
  deriving DecidableEq, Inhabited

namespace StringReference

def stop (s : StringReference) : Word := s.start + s.length

def contains (s : StringReference) (a : Word) : Bool := s.start ≤ a && a < s.stop

end StringReference

end BinaryAtlas
