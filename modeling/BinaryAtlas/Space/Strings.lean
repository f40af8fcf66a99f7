import BinaryAtlas.Space.Bytes

/-!
Strings in memory: finding them in bytes, and the table of those that were found.
-/

set_option autoImplicit false

namespace BinaryAtlas

namespace StringScan

def isText (b : UInt8) : Bool := (0x20 ≤ b && b < 0x7f) || b == 9

def isTextUnit (low high : UInt8) : Bool := high == 0 && isText low

/-- The maximal runs of true flags as position and length. `position` is that of the next flag and
`run` the length of the run that ends there. -/
def runsFrom (position run : Nat) : List Bool → List (Nat × Nat)
  | [] => if run = 0 then [] else [(position - run, run)]
  | true :: rest => runsFrom (position + 1) (run + 1) rest
  | false :: rest =>
    (if run = 0 then [] else [(position - run, run)]) ++ runsFrom (position + 1) 0 rest

def runs (flags : List Bool) : List (Nat × Nat) := runsFrom 0 0 flags

def unitFlags : List UInt8 → List Bool
  | low :: high :: rest => isTextUnit low high :: unitFlags rest
  | _ => []

/-- The strings of one byte a character, of `least` characters at least; no more than `most` of
them count. -/
def ascii (bytes : List UInt8) (base : Word) (least most : Nat) : List StringReference :=
  ((runs (bytes.map isText)).filter (fun r => least ≤ r.2)).map fun (start, length) =>
    ⟨.ascii, base + .ofNat start, .ofNat (min length most)⟩

/-- The strings of two bytes a character that start an even number of bytes behind `shift`. -/
def utf16 (bytes : List UInt8) (base : Word) (least most shift : Nat) : List StringReference :=
  ((runs (unitFlags (bytes.drop shift))).filter (fun r => least ≤ r.2)).map fun (start, length) =>
    ⟨.utf16, base + .ofNat (shift + start * 2), .ofNat (min length most * 2)⟩

def inOrder (s t : StringReference) : Bool :=
  s.start < t.start || (s.start == t.start && s.length ≤ t.length)

def firstOfEach : List StringReference → List StringReference
  | s :: t :: rest =>
    if s.start = t.start then firstOfEach (s :: rest) else s :: firstOfEach (t :: rest)
  | l => l
termination_by l => l.length

/-- The strings in some bytes, which stand at `base`, in address order; of several at one address
the shortest. -/
def scan (bytes : List UInt8) (base : Word) (least most : Nat) : List StringReference :=
  let least := max least 1
  let most := max most least
  let found := ascii bytes base least most ++ utf16 bytes base least most 0 ++
    utf16 bytes base least most 1
  firstOfEach (found.mergeSort inOrder)

end StringScan

namespace TextEncoding

def unitOf (order : Endianness) (a b : UInt8) : Nat := (order.value [a, b]).toNat

def units16? (order : Endianness) : List UInt8 → Option (List Nat)
  | a :: b :: rest => (units16? order rest).map (unitOf order a b :: ·)
  | [] => some []
  | [_] => none

def ofUnits16? : List Nat → Option (List Char)
  | [] => some []
  | u :: rest =>
    if u < 0xd800 ∨ 0xe000 ≤ u then (ofUnits16? rest).map (Char.ofNat u :: ·)
    else if u < 0xdc00 then
      match rest with
      | v :: rest =>
        if 0xdc00 ≤ v ∧ v < 0xe000 then
          (ofUnits16? rest).map (Char.ofNat (0x10000 + (u - 0xd800) * 0x400 + (v - 0xdc00)) :: ·)
        else none
      | [] => none
    else none

def char? (n : Nat) : Option Char := if n.isValidChar then some (Char.ofNat n) else none

def chars32? (order : Endianness) : List UInt8 → Option (List Char)
  | a :: b :: c :: d :: rest => do
    let first ← char? (order.value [a, b, c, d]).toNat
    let others ← chars32? order rest
    pure (first :: others)
  | _ => some []

end TextEncoding

namespace Space

/-- The strings found at or behind the start of a range and below its end take the place of those
known there. -/
def replaceStrings (range : AddressRange) (found : List StringReference) : Op Unit := do
  let known ← Op.read (·.metadata.strings)
  let stale := ((known.between range.start range.stop).map (·.2)).filter (!found.contains ·)
  let kept := stale.foldl (fun t s => t.erase s.start) known
  let step := fun (acc : Table Word StringReference × List ChangeEvent) (s : StringReference) =>
    let (table, events) := acc
    if !range.contains s.start || table.get? s.start == some s then acc
    else
      let gone := (table.get? s.start).toList.map ChangeEvent.stringRemoved
      (table.insert s.start s, events ++ gone ++ [.stringFound s])
  let (table, events) := found.foldl step (kept, stale.map ChangeEvent.stringRemoved)
  editMetadata fun m => { m with strings := table }
  tellQuietly events

def stringsIn (s : Space) (a length : Word) : List StringReference :=
  let range := AddressRange.ofLength a length
  (s.metadata.strings.between range.start range.stop).map (·.2)

/-- The string at an address, or with `inside` also the last one that started before it, if it
reaches there. -/
def stringAt? (s : Space) (a : Word) (inside : Bool) : Option StringReference :=
  match s.metadata.strings.get? a with
  | some found => some found
  | none =>
    if inside then
      ((s.metadata.strings.below? a).map (·.2)).filter (·.contains a)
    else none

/-- Text read at an address itself: at least one character and `least`, at most `most` (zero stands
for the configured length), and with `terminated` a zero byte behind it. -/
def asciiAt? (s : Space) (a : Word) (least most : Word) (terminated : Bool) :
    Option StringReference :=
  let most := if most = 0 then s.config.analysis.maxStringLength else most
  let bytes := s.read a (Word.addCapped most 1).toNat
  let length := ((bytes.take most.toNat).takeWhile StringScan.isText).length
  if length = 0 ∨ length < least.toNat then none
  else if terminated && bytes[length]? != some 0 then none
  else some ⟨.ascii, a, .ofNat length⟩

def readString? (s : Space) (string : StringReference) : Option String :=
  let bytes := s.read string.start string.length.toNat
  if bytes.length < string.length.toNat then none
  else
    match string.kind with
    | .ascii => String.fromUTF8? ⟨bytes.toArray⟩
    | .utf16 =>
      ((TextEncoding.units16? s.endianness bytes).bind TextEncoding.ofUnits16?).map String.ofList
    | .utf32 => (TextEncoding.chars32? s.endianness bytes).map String.ofList

end Space

end BinaryAtlas
