import BinaryAtlas.Mangling
import BinaryAtlas.Text.Hexadecimal

/-!
Symbols: names for addresses.
-/

set_option autoImplicit false

namespace BinaryAtlas

inductive SymbolKind where
  | function
  | importAddress
  | importedFunction
  | data
  | importedData
  | external
  | libraryFunction
  deriving DecidableEq, Inhabited

namespace SymbolKind

instance : Named SymbolKind where
  all := [function, importAddress, importedFunction, data, importedData, external,
    libraryFunction]
  name
    | function => "Function"
    | importAddress => "ImportAddress"
    | importedFunction => "ImportedFunction"
    | data => "Data"
    | importedData => "ImportedData"
    | external => "External"
    | libraryFunction => "LibraryFunction"

end SymbolKind

inductive SymbolBinding where
  | none
  | local
  | global
  | weak
  deriving DecidableEq, Inhabited

namespace SymbolBinding

instance : Named SymbolBinding where
  all := [.none, .local, .global, .weak]
  name
    | .none => "None"
    | .local => "Local"
    | .global => "Global"
    | .weak => "Weak"

end SymbolBinding

/-- What tells symbols apart: an address has one symbol in each namespace. -/
structure SymbolKey where
  address : Word
  scope : String
  deriving DecidableEq, Inhabited

namespace SymbolKey

instance : Ord SymbolKey :=
  ⟨compareLex (compareOn SymbolKey.address) (compareOn SymbolKey.scope)⟩

instance : Std.TransOrd SymbolKey :=
  inferInstanceAs
    (Std.TransCmp (compareLex (compareOn SymbolKey.address) (compareOn SymbolKey.scope)))

instance : Std.LawfulEqOrd SymbolKey where
  eq_of_compare {a b} h := by
    have h : compareLex (compareOn SymbolKey.address) (compareOn SymbolKey.scope) a b = .eq := h
    simp only [compareLex, compareOn, Ordering.then_eq_eq, Std.compare_eq_iff_eq] at h
    cases a; cases b
    obtain ⟨rfl, rfl⟩ := h
    rfl

end SymbolKey

structure Symbol where
  kind : SymbolKind
  binding : SymbolBinding
  scope : String
  shortName : String
  fullName : String
  rawName : String
  address : Word
  ordinal : Word
  auto : Bool
  deriving DecidableEq, Inhabited

namespace Symbol

def ofRawName (kind : SymbolKind) (address : Word) (raw : String) : Symbol :=
  match Mangling.demangle? raw with
  | some d => ⟨kind, .none, "", d.short, d.full, raw, address, 0, true⟩
  | none => ⟨kind, .none, "", raw, raw, raw, address, 0, true⟩

def key (s : Symbol) : SymbolKey := ⟨s.address, s.scope⟩

def hasName (s : Symbol) (name : String) : Bool :=
  s.rawName == name || s.fullName == name || s.shortName == name

def text (s : Symbol) : String :=
  Named.name s.kind ++ " " ++ s.fullName ++ " @ " ++ s.address.hexText

end Symbol

end BinaryAtlas
