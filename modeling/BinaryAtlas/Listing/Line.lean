import BinaryAtlas.Instruction
import BinaryAtlas.SpaceConfig

/-!
Lines of a listing, and how a reader wants them.
-/

set_option autoImplicit false

namespace BinaryAtlas

structure ListingSettings where
  /-- Bytes on a line of plain bytes; zero counts as one. -/
  bytesPerRow : Word
  showAddresses : Bool
  showFunctionHeaders : Bool
  /-- Longer function names are cut; zero is no limit. -/
  maxSymbolWidth : Word
  deriving DecidableEq, Inhabited

namespace ListingSettings

def ofConfig (c : LinearConfig) : ListingSettings :=
  ⟨max c.bytesPerRow 1, true, c.showFunctionHeaders, 0⟩

def default : ListingSettings := ofConfig {}

def row (settings : ListingSettings) : Word := max settings.bytesPerRow 1

def shorten (settings : ListingSettings) (name : String) : String :=
  if settings.maxSymbolWidth = 0 then name
  else String.ofList (name.toList.take settings.maxSymbolWidth.toNat)

end ListingSettings

inductive LineKind where
  | functionHeader
  | functionHeaderEnd
  | code
  | dataVariable
  | hex
  | segmentBoundary
  deriving DecidableEq, Inhabited

namespace LineKind

instance : Named LineKind where
  all := [functionHeader, functionHeaderEnd, code, dataVariable, hex, segmentBoundary]
  name
    | functionHeader => "FunctionHeader"
    | functionHeaderEnd => "FunctionHeaderEnd"
    | code => "Code"
    | dataVariable => "DataVariable"
    | hex => "Hex"
    | segmentBoundary => "SegmentBoundary"

end LineKind

structure ListingLine where
  kind : LineKind
  address : Word
  function : Option Word
  block : Option Word
  tokens : List Token
  deriving DecidableEq, Inhabited

namespace ListingLine

def text (line : ListingLine) : String := Token.render line.tokens

end ListingLine

/-- What is listed together: one instruction, one variable or one row of bytes, with the headings
in front of it. -/
structure ListingUnit where
  start : Word
  stop : Word
  lines : List ListingLine
  deriving DecidableEq, Inhabited

end BinaryAtlas
