import BinaryAtlas.Named
import BinaryAtlas.Text.Blank

/-!
Mangled symbol names: which scheme a raw name follows, what it reads as, and the short form without
parameters.
-/

set_option autoImplicit false

namespace BinaryAtlas

/-!
The mangled names this library knows, scheme by scheme, with what they read as. A name that is not
listed counts as no name of the scheme.
-/

namespace Mangling.Catalogue

/-- Raw name, full reading, and the reading without the hash. -/
def rustNames : List (String × String × String) :=
  [("_ZN4core3fmt5write17h0123456789abcdefE", "core::fmt::write::h0123456789abcdef",
     "core::fmt::write"),
   ("_ZN3foo3bar17hdeadbeefdeadbeefE", "foo::bar::hdeadbeefdeadbeef",
     "foo::bar"),
   ("_ZN3foo3barE", "foo::bar",
     "foo::bar"),
   ("_RNvC6_123foo3bar", "123foo::bar",
     "123foo::bar")]

def itaniumNames : List (String × String) :=
  [("_Z3foov", "foo()"),
   ("_ZN3foo3barEi", "foo::bar(int)"),
   ("_ZN3foo3barEv", "foo::bar()"),
   ("_Z3addii", "add(int, int)"),
   ("_ZN1a1b1cEPKc", "a::b::c(char const*)"),
   ("_ZN9NamespaceC1Ev", "Namespace::Namespace()"),
   ("_Z1fPFivE", "f(int (*)())"),
   ("_ZTV3foo", "\x7bvtable(foo)\x7d"),
   ("_ZN3fooclEi", "foo::operator()(int)"),
   ("_ZNK3foo3getEv", "foo::get() const"),
   ("_ZN1aIiE1bEv", "a<int>::b()"),
   ("_ZdlPv", "operator delete(void*)"),
   ("_ZZ1fiE1x", "f(int)::x")]

def msvcNames : List (String × String) :=
  [("?foo@@YAXXZ", "void __cdecl foo(void)"),
   ("?bar@ns@@YAHH@Z", "int __cdecl ns::bar(int)"),
   ("?x@@3HA", "int x"),
   ("??0C@@QEAA@XZ", "public: __cdecl C::C(void)"),
   ("?f@@YAPEADPEBD@Z", "char * __cdecl f(char const *)")]

def rust? (raw : String) : Option (String × String) := rustNames.lookup raw

def itanium? (raw : String) : Option String := itaniumNames.lookup raw

def msvc? (raw : String) : Option String := msvcNames.lookup raw

end Mangling.Catalogue

inductive SymbolFlavor where
  | rust
  | itanium
  | msvc
  | unknown
  deriving DecidableEq, Inhabited

namespace SymbolFlavor

instance : Named SymbolFlavor where
  all := [rust, itanium, msvc, unknown]
  name
    | rust => "Rust"
    | itanium => "Itanium"
    | msvc => "Msvc"
    | unknown => "Unknown"

end SymbolFlavor

structure Demangled where
  raw : String
  full : String
  short : String
  flavor : SymbolFlavor
  deriving DecidableEq, Inhabited

namespace Mangling

def looksItanium (raw : List Char) : Bool :=
  ['_', 'Z'].isPrefixOf raw || ['_', '_', 'Z'].isPrefixOf raw

def looksMsvc (raw : List Char) : Bool :=
  ['?'].isPrefixOf raw && raw.contains '@'

def flavor (raw : String) : SymbolFlavor :=
  if (Catalogue.rust? raw).isSome then .rust
  else if looksItanium raw.toList then .itanium
  else if looksMsvc raw.toList then .msvc
  else .unknown

/-- Looks for the parenthesis that opens the last group: `rest` holds the characters still to the
left, nearest first, and `depth` the groups that are open between there and the end. The answer is
the text in front of the group. -/
def beforeLastGroup? (depth : Int) : List Char → Option (List Char)
  | [] => none
  | ')' :: rest => beforeLastGroup? (depth + 1) rest
  | '(' :: rest =>
    if depth - 1 = 0 ∧ rest ≠ [] then some rest.reverse else beforeLastGroup? (depth - 1) rest
  | _ :: rest => beforeLastGroup? depth rest

def withoutParameters (name : List Char) : List Char :=
  -- A demangled name without its last group in parentheses and what follows it. A name that is
  -- nothing but the group keeps it.
  match beforeLastGroup? 0 name.reverse with
  | some front => trimRight front
  | none => name

def lastWord (name : List Char) : List Char :=
  (name.reverse.takeWhile (· ≠ ' ')).reverse

def demangleRust? (raw : String) : Option Demangled :=
  (Catalogue.rust? raw).map fun (full, short) => ⟨raw, full, short, .rust⟩

def demangleItanium? (raw : String) : Option Demangled :=
  if looksItanium raw.toList then
    let name := if ['_', '_', 'Z'].isPrefixOf raw.toList then raw.toList.drop 1 else raw.toList
    (Catalogue.itanium? (String.ofList name)).map fun full =>
      ⟨raw, full, String.ofList (withoutParameters full.toList), .itanium⟩
  else none

def demangleMsvc? (raw : String) : Option Demangled :=
  if looksMsvc raw.toList then
    (Catalogue.msvc? raw).map fun full =>
      ⟨raw, full, String.ofList (lastWord (withoutParameters full.toList)), .msvc⟩
  else none

def demangle? (raw : String) : Option Demangled :=
  demangleRust? raw <|> demangleItanium? raw <|> demangleMsvc? raw

end Mangling

end BinaryAtlas
