import BinaryAtlas.DataType

/-!
How C lays out structures: every member at the next multiple of its alignment, and the whole rounded
up to the largest alignment.
-/

set_option autoImplicit false

namespace BinaryAtlas

namespace DataType

/-- The greatest power of two up to eight that is at most a width. -/
def alignOfWidth (width : Word) : Word :=
  if 8 ≤ width then 8 else if 4 ≤ width then 4 else if 2 ≤ width then 2 else 1

mutual

def align : DataType → Word
  | record _ members _ => alignAll members
  | array element _ => align element
  | void => 1
  | function _ _ _ => 1
  | bool => 1
  | integer w _ => alignOfWidth w
  | float w => alignOfWidth w
  | pointer _ w => alignOfWidth w
  | enumeration _ _ w => alignOfWidth w
  | named _ w => alignOfWidth w
termination_by structural t => t

def alignAll : List StructMember → Word
  | [] => 1
  | .mk _ _ type :: rest => max (align type) (alignAll rest)
termination_by structural l => l

end

def roundUp (offset align : Word) : Word :=
  if offset % align = 0 then offset else offset + (align - offset % align)

def placeFrom (offset : Word) : List (String × DataType) → List StructMember × Word
  | [] => ([], offset)
  | (name, type) :: rest =>
    let start := roundUp offset type.align
    let (members, stop) := placeFrom (start + type.width) rest
    (.mk name start type :: members, stop)

def laidOut (name : Option String) (fields : List (String × DataType)) : DataType :=
  let (members, stop) := placeFrom 0 fields
  record name members (roundUp stop (alignAll members))

end DataType

end BinaryAtlas
