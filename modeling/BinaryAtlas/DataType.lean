import BinaryAtlas.AddressRange

/-!
Types of data in memory. A type is a plain value; it points at a type of the library by name, and
the library looks the name up. Every type has a width in bytes and a text.
-/

set_option autoImplicit false

namespace BinaryAtlas

mutual

inductive DataType where
  | void
  | bool
  | integer (width : Word) (signed : Bool)
  | float (width : Word)
  | pointer (target : DataType) (width : Word)
  | array (element : DataType) (count : Word)
  | record (name : Option String) (members : List StructMember) (width : Word)
  | enumeration (name : Option String) (members : List (String × Int)) (width : Word)
  | function (result : DataType) (parameters : List Parameter) (variadic : Bool)
  /-- A type of the library, by name; the width is what the place that names it took it to be. -/
  | named (name : String) (width : Word)

inductive StructMember where
  | mk (name : String) (offset : Word) (type : DataType)

inductive Parameter where
  | mk (name : Option String) (type : DataType)

end

deriving instance Inhabited for DataType, StructMember, Parameter

namespace StructMember

def name : StructMember → String
  | mk name _ _ => name

def offset : StructMember → Word
  | mk _ offset _ => offset

def type : StructMember → DataType
  | mk _ _ type => type

end StructMember

namespace Parameter

def name : Parameter → Option String
  | mk name _ => name

def type : Parameter → DataType
  | mk _ type => type

end Parameter

namespace DataType

mutual

def same : DataType → DataType → Bool
  | void, void => true
  | bool, bool => true
  | integer w s, integer w' s' => w == w' && s == s'
  | float w, float w' => w == w'
  | pointer t w, pointer t' w' => same t t' && w == w'
  | array t n, array t' n' => same t t' && n == n'
  | record n ms w, record n' ms' w' => n == n' && sameMembers ms ms' && w == w'
  | enumeration n ms w, enumeration n' ms' w' => n == n' && ms == ms' && w == w'
  | function r ps v, function r' ps' v' => same r r' && sameParameters ps ps' && v == v'
  | named n w, named n' w' => n == n' && w == w'
  | _, _ => false
termination_by structural t => t

def sameMembers : List StructMember → List StructMember → Bool
  | [], [] => true
  | .mk n o t :: ms, .mk n' o' t' :: ms' => n == n' && o == o' && same t t' && sameMembers ms ms'
  | _, _ => false
termination_by structural l => l

def sameParameters : List Parameter → List Parameter → Bool
  | [], [] => true
  | .mk n t :: ps, .mk n' t' :: ps' => n == n' && same t t' && sameParameters ps ps'
  | _, _ => false
termination_by structural l => l

end

mutual

theorem same_iff : ∀ a b : DataType, same a b = true ↔ a = b
  | a, b => by
    cases a <;> cases b <;>
      simp [same, same_iff, sameMembers_iff, sameParameters_iff, and_assoc]

theorem sameMembers_iff : ∀ a b : List StructMember, sameMembers a b = true ↔ a = b
  | [], b => by cases b <;> simp [sameMembers]
  | .mk _ _ t :: ms, b => by
    rcases b with _ | ⟨⟨_, _, _⟩, _⟩ <;>
      simp [sameMembers, same_iff t, sameMembers_iff ms, and_assoc]

theorem sameParameters_iff : ∀ a b : List Parameter, sameParameters a b = true ↔ a = b
  | [], b => by cases b <;> simp [sameParameters]
  | .mk _ t :: ps, b => by
    rcases b with _ | ⟨⟨_, _⟩, _⟩ <;>
      simp [sameParameters, same_iff t, sameParameters_iff ps, and_assoc]

end

instance : DecidableEq DataType := fun a b => decidable_of_iff _ (same_iff a b)

def width : DataType → Word
  -- The number of bytes a value takes; the length of an array stops at the largest word.
  | void => 0
  | function _ _ _ => 0
  | bool => 1
  | integer w _ => w
  | float w => w
  | pointer _ w => w
  | record _ _ w => w
  | enumeration _ _ w => w
  | named _ w => w
  | array element count => Word.mulCapped element.width count

def packFrom (offset : Word) : List (String × DataType) → List StructMember × Word
  | [] => ([], offset)
  | (name, type) :: rest =>
    let (members, stop) := packFrom (offset + type.width) rest
    (.mk name offset type :: members, stop)

def packed (name : Option String) (fields : List (String × DataType)) : DataType :=
  let (members, width) := packFrom 0 fields
  record name members width

def isNamed : DataType → Bool
  | named _ _ => true
  | _ => false

mutual

def mentions (name : String) : DataType → Bool
  | named n _ => n == name
  | pointer target _ => mentions name target
  | array element _ => mentions name element
  | record _ members _ => membersMention name members
  | function result parameters _ => mentions name result || parametersMention name parameters
  | _ => false
termination_by structural t => t

def membersMention (name : String) : List StructMember → Bool
  | [] => false
  | .mk _ _ t :: ms => mentions name t || membersMention name ms
termination_by structural l => l

def parametersMention (name : String) : List Parameter → Bool
  | [] => false
  | .mk _ t :: ps => mentions name t || parametersMention name ps
termination_by structural l => l

end

def integerText (width : Word) (signed : Bool) : String :=
  if width = 1 ∧ signed then "char"
  else (if signed then "int" else "uint") ++ toString (width * 8) ++ "_t"

def floatText (width : Word) : String :=
  if width = 4 then "float"
  else if width = 8 then "double"
  else if width = 10 then "long double"
  else "float" ++ toString (width * 8)

mutual

def text : DataType → String
  | void => "void"
  | bool => "bool"
  | integer w s => integerText w s
  | float w => floatText w
  | pointer target _ => text target ++ "*"
  | array element count => text element ++ "[" ++ count.hexText ++ "]"
  | record (some name) _ _ => "struct " ++ name
  | record none members _ => "struct \x7b " ++ membersText members ++ "\x7d"
  | enumeration (some name) _ _ => "enum " ++ name
  | enumeration none _ _ => "enum"
  | function result parameters variadic =>
    text result ++ " (" ++ parametersText variadic parameters ++ ")"
  | named name _ => name
termination_by structural t => t

def membersText : List StructMember → String
  | [] => ""
  | .mk name _ t :: rest => text t ++ " " ++ name ++ "; " ++ membersText rest
termination_by structural l => l

def parametersText (variadic : Bool) : List Parameter → String
  | [] => if variadic then "..." else ""
  | .mk name t :: rest =>
    text t ++ (match name with | some n => " " ++ n | none => "") ++
      (if rest.isEmpty && !variadic then "" else ", ") ++ parametersText variadic rest
termination_by structural l => l

end

end DataType

structure DataVariable where
  address : Word
  type : DataType
  auto : Bool
  deriving DecidableEq, Inhabited

namespace DataVariable

def range (v : DataVariable) : AddressRange :=
  -- The bytes of the variable: one at least, so that each variable can be found by an address.
  .ofLength v.address (max v.type.width 1)

def text (v : DataVariable) : String :=
  v.type.text ++ " @ " ++ v.address.hexText

end DataVariable

end BinaryAtlas
