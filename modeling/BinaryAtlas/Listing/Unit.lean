import BinaryAtlas.Listing.Line
import BinaryAtlas.Space.Functions
import BinaryAtlas.Space.Symbols

/-!
Listing what stands at an address: an instruction inside a known block, a variable at its start, and
anything else as a row of bytes. Units lie one after the other, and each valid address is in one.
-/

set_option autoImplicit false

namespace BinaryAtlas

namespace Listing

def nextValid? (s : Space) (a : Word) : Option Word :=
  let next := s.nextValid a
  if next < s.stop && s.isValid next then some next else none

def previousValid? (s : Space) (a : Word) : Option Word :=
  match Word.sub? a 1 with
  | none => none
  | some p =>
    if s.isValid p then some p
    else
      (((s.map.segments.filter fun g => !g.range.isEmpty && g.stop ≤ a).map
        (·.stop - 1)).filter s.isValid).max?

def codeBlockAt? (s : Space) (a : Word) : Option (Word × BasicBlock × Architecture) := do
  let architecture ← s.architecture
  let (function, block) ← s.functions.blockAt? a
  pure (function, block, architecture)

def coveredStop? (s : Space) (a : Word) : Option Word :=
  match codeBlockAt? s a with
  | some (_, block, _) => some block.stop
  | none => (s.variableContaining? a).map (·.range.stop)

def codeBytes (s : Space) (architecture : Architecture) (a limit : Word) : List UInt8 :=
  s.read a (min architecture.maxInstructionLength (limit - a).toNat)

def stepLength (s : Space) (architecture : Architecture) (a limit : Word) : Word :=
  -- How far the next instruction of a block is; bytes that are none count one by one.
  max (.ofNat (architecture.decode (codeBytes s architecture a limit) a).length) 1

def addressTokens (settings : ListingSettings) (a : Word) : List Token :=
  if settings.showAddresses then
    [⟨.address, hexDigitsPadded 8 a.toNat, a⟩, .plain .text "  "]
  else []

def hexToken (b : UInt8) : Token := ⟨.hex, hexDigitsPadded 2 b.toNat, b.toUInt64⟩

def segmentHeading (s : Space) (settings : ListingSettings) (a : Word) : List ListingLine :=
  match (s.map.at? a).filter fun g => g.start == a && a != s.start with
  | some g =>
    [⟨.segmentBoundary, a, none, none,
      addressTokens settings a ++ [.plain .remark ("segment " ++ g.text)]⟩]
  | none => []

def functionHeading (s : Space) (settings : ListingSettings) (a : Word) : List ListingLine :=
  match s.functionAt? a with
  | some f =>
    [⟨.functionHeader, a, some a, none,
      addressTokens settings a ++
        [⟨.functionName, settings.shorten f.name, a⟩, .plain .text "()"]⟩,
      ⟨.functionHeaderEnd, a, some a, none, []⟩]
  | none => []

def codeUnit (s : Space) (settings : ListingSettings) (a function : Word) (block : BasicBlock)
    (architecture : Architecture) : Word × ListingLine :=
  let bytes := codeBytes s architecture a block.stop
  let i := architecture.decode bytes a
  if i.isValid then
    (a + .ofNat i.length,
      ⟨.code, a, some function, some block.start, addressTokens settings a ++ i.tokens⟩)
  else
    (a + 1,
      ⟨.hex, a, some function, some block.start,
        addressTokens settings a ++ [.plain .keyword "db ", hexToken (bytes.head?.getD 0)]⟩)

def scalar? : DataType → Option (Word × Bool)
  | .integer width signed => some (width, signed)
  | .pointer _ width => some (width, false)
  | .bool => some (1, false)
  | _ => none

def valueText (i : Int) : String :=
  (if i < 0 then "-0x" else "0x") ++ hexDigits i.natAbs

def valueTokens (s : Space) (a : Word) (type : DataType) : List Token :=
  match (scalar? type).bind fun (width, signed) =>
      s.readInteger? a width.toNat signed s.endianness with
  | some i => [.plain .text " = ", ⟨.integer, valueText i, .ofInt i⟩]
  | none => []

def dataName (s : Space) (a : Word) : String :=
  match s.symbolAt? a "" with
  | some symbol => symbol.fullName
  | none => "data_" ++ hexDigits a.toNat

def variableLine (s : Space) (settings : ListingSettings) (a : Word) (type : DataType) :
    ListingLine :=
  ⟨.dataVariable, a, none, none,
    addressTokens settings a ++
      [.plain .typeName type.text, .plain .text " ", ⟨.dataSymbol, dataName s a, a⟩] ++
      valueTokens s a type⟩

/-- Where a row of bytes ends at the latest: at a multiple of the row's length, and in front of a
variable, a block or a segment that begins later. -/
def rowStop (s : Space) (settings : ListingSettings) (a : Word) : Word :=
  let variable_ := (s.variableAfter? a).map (·.address)
  let block := s.architecture.bind fun _ => s.functions.nextBlockAfter? a
  let segment := s.map.nextStartAfter? a
  (variable_.toList ++ block.toList ++ segment.toList).foldl min
    (Word.addCapped (a - a % settings.row) settings.row)

def asciiChar (b : UInt8) : Char := if 0x20 ≤ b && b < 0x7f then Char.ofNat b.toNat else '.'

def rowTokens (data : List UInt8) : List Token :=
  (data.map hexToken).intersperse (.plain .text " ") ++
    [.plain .text "  ", .plain .text (String.ofList (data.map asciiChar))]

def rowUnit? (s : Space) (settings : ListingSettings) (a : Word) : Option (Word × ListingLine) :=
  let data := s.read a (rowStop s settings a - a).toNat
  if data.isEmpty then none
  else
    some (a + .ofNat data.length,
      ⟨.hex, a, none, none, addressTokens settings a ++ rowTokens data⟩)

def unitAt? (s : Space) (settings : ListingSettings) (a : Word) : Option ListingUnit :=
  if !s.isValid a then none
  else
    let most := (max s.config.linear.maxLinesPerStep 1).toNat
    let unit := fun (stop : Word) (lines : List ListingLine) =>
      (⟨a, stop, (segmentHeading s settings a ++ lines).take most⟩ : ListingUnit)
    match codeBlockAt? s a with
    | some (function, block, architecture) =>
      let heading :=
        if settings.showFunctionHeaders && function == a then functionHeading s settings a else []
      let (stop, line) := codeUnit s settings a function block architecture
      some (unit stop (heading ++ [line]))
    | none =>
      match s.metadata.dataVariables.get? a with
      | some v => some (unit v.range.stop [variableLine s settings a v.type])
      | none => (rowUnit? s settings a).map fun (stop, line) => unit stop [line]

/-- The last instruction of a block that begins at or below `p`, from `current` on. -/
def instructionStart (s : Space) (architecture : Architecture) (stop p : Word) :
    Nat → Word → Word
  | 0, _ => p
  | fuel + 1, current =>
    if current < stop then
      let next := current + stepLength s architecture current stop
      if p < next then current else instructionStart s architecture stop p fuel next
    else p

/-- Moves `anchor` up past the blocks and variables that end at or below `p`. -/
def raiseAnchor (s : Space) (p : Word) : Nat → Word → Word
  | 0, anchor => anchor
  | fuel + 1, anchor =>
    if anchor < p then
      match coveredStop? s anchor with
      | some stop => if anchor < stop && stop ≤ p then raiseAnchor s p fuel stop else anchor
      | none => anchor
    else anchor

def walkTo? (s : Space) (settings : ListingSettings) (p : Word) : Nat → Word → Option Word
  | 0, _ => some p
  | fuel + 1, current =>
    if current ≤ p then
      match unitAt? s settings current with
      | none => none
      | some unit =>
        if p < unit.stop then some current else walkTo? s settings p fuel unit.stop
    else some p

def unitStart? (s : Space) (settings : ListingSettings) (p : Word) : Option Word :=
  if !s.isValid p then none
  else
    match codeBlockAt? s p with
    | some (_, block, architecture) =>
      some (instructionStart s architecture block.stop p (block.stop - block.start).toNat
        block.start)
    | none =>
      match s.variableContaining? p with
      | some v => some v.address
      | none =>
        let first := match s.map.at? p with
          | some g => g.start
          | none => s.start
        -- Rows end at multiples of their length, so the walk need not begin further down.
        let anchor := raiseAnchor s p p.toNat (max (p - p % settings.row) first)
        walkTo? s settings p ((p - anchor).toNat + 1) anchor

end Listing

end BinaryAtlas
