import BinaryAtlas.Named
import BinaryAtlas.Word

/-!
Byte order, and the word that up to eight bytes spell in it.
-/

set_option autoImplicit false

namespace BinaryAtlas

inductive Endianness where
  | little
  | big
  deriving DecidableEq, Inhabited

namespace Endianness

instance : Named Endianness where
  all := [little, big]
  name
    | little => "Little"
    | big => "Big"

def bigEndianValue (bytes : List UInt8) : Word :=
  bytes.foldl (fun value b => value <<< 8 ||| b.toUInt64) 0

def value (order : Endianness) (bytes : List UInt8) : Word :=
  -- The unsigned value of the first eight bytes, or of all when there are fewer.
  match order with
  | little => bigEndianValue (bytes.take 8).reverse
  | big => bigEndianValue (bytes.take 8)

end Endianness

end BinaryAtlas
