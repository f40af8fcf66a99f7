import BinaryAtlas.AddressRange
import BinaryAtlas.Named

/-!
Segments map a range of addresses onto a run of the stored bytes; sections name and describe a
range without mapping anything.
-/

set_option autoImplicit false

namespace BinaryAtlas

/-- What a segment allows and holds, one bit each. Bits without a meaning are kept. -/
structure SegmentFlags where
  raw : BitVec 32
  deriving DecidableEq, Inhabited

namespace SegmentFlags

def executable (f : SegmentFlags) : Bool := f.raw.getLsbD 0

def writable (f : SegmentFlags) : Bool := f.raw.getLsbD 1

def readable (f : SegmentFlags) : Bool := f.raw.getLsbD 2

def containsData (f : SegmentFlags) : Bool := f.raw.getLsbD 3

def containsCode (f : SegmentFlags) : Bool := f.raw.getLsbD 4

-- The segment cannot be written, writable or not.
def denyWrite (f : SegmentFlags) : Bool := f.raw.getLsbD 5

def denyExecute (f : SegmentFlags) : Bool := f.raw.getLsbD 6

-- The flags of a number; its bits without a meaning are dropped.
def ofBits (bits : Nat) : SegmentFlags := ⟨(BitVec.ofNat 7 bits).setWidth 32⟩

def ofAllBits (bits : Nat) : SegmentFlags := ⟨.ofNat 32 bits⟩

def bits (f : SegmentFlags) : Nat := f.raw.toNat

theorem ofAllBits_bits (f : SegmentFlags) : ofAllBits f.bits = f := by
  simp [ofAllBits, bits]

def ofPermissions (read write execute : Bool) : SegmentFlags :=
  .ofBits (execute.toNat + 2 * write.toNat + 4 * read.toNat)

def text (f : SegmentFlags) : String :=
  (if f.readable then "r" else "-") ++ (if f.writable then "w" else "-") ++
    (if f.executable then "x" else "-")

end SegmentFlags

structure Segment where
  id : Nat
  range : AddressRange
  dataOffset : Word
  /-- How many bytes from the start of the segment are stored; the others read as nothing. -/
  dataLength : Word
  flags : SegmentFlags
  auto : Bool
  relocations : List AddressRange
  deriving DecidableEq, Inhabited

namespace Segment

def ofLayout (start length dataOffset dataLength : Word) (flags : SegmentFlags) (auto : Bool) :
    Except AtlasError Segment :=
  -- A segment with no relocations and the number zero; a map gives it its own number.
  if length < dataLength then
    let stored := dataLength.hexText
    let mapped := length.hexText
    .error (.invalidArgument s!"segment data length {stored} exceeds virtual length {mapped}")
  else
    match Word.add? start length, Word.add? dataOffset dataLength with
    | none, _ =>
      .error (.invalidArgument s!"segment at {start.hexText} wraps the address space")
    | some _, none =>
      let offset := dataOffset.hexText
      let stored := dataLength.hexText
      .error (.invalidArgument s!"segment data {offset}+{stored} wraps the storage offset range")
    | some stop, some _ => .ok ⟨0, ⟨start, stop⟩, dataOffset, dataLength, flags, auto, []⟩

def start (s : Segment) : Word := s.range.start

def stop (s : Segment) : Word := s.range.stop

def length (s : Segment) : Word := s.range.length

def dataEnd (s : Segment) : Word := Word.addCapped s.dataOffset s.dataLength

def contains (s : Segment) (a : Word) : Bool := s.range.contains a

def isReadable (s : Segment) : Bool := s.flags.readable

def isWritable (s : Segment) : Bool := s.flags.writable && !s.flags.denyWrite

def isExecutable (s : Segment) : Bool := s.flags.executable && !s.flags.denyExecute

def dataOffsetOf? (s : Segment) (a : Word) : Option Word :=
  if s.contains a && a - s.start < s.dataLength then some (s.dataOffset + (a - s.start)) else none

def addressOfData? (s : Segment) (offset : Word) : Option Word :=
  if s.dataOffset ≤ offset && offset < s.dataEnd then some (s.start + (offset - s.dataOffset))
  else none

def text (s : Segment) : String :=
  "Segment(" ++ s.range.text ++ " " ++ s.flags.text ++ " data@" ++ s.dataOffset.hexText ++ "+" ++
    s.dataLength.hexText ++ (if s.auto then "" else " user") ++ ")"

end Segment

inductive SectionSemantics where
  | default
  | readOnlyCode
  | readOnlyData
  | readWriteData
  | external
  deriving DecidableEq, Inhabited

namespace SectionSemantics

instance : Named SectionSemantics where
  all := [default, readOnlyCode, readOnlyData, readWriteData, external]
  name
    | default => "Default"
    | readOnlyCode => "ReadOnlyCode"
    | readOnlyData => "ReadOnlyData"
    | readWriteData => "ReadWriteData"
    | external => "External"

end SectionSemantics

structure Section where
  name : String
  range : AddressRange
  semantics : SectionSemantics
  typeName : String
  linkedSection : Option String
  infoSection : Option String
  infoData : Word
  align : Word
  entrySize : Word
  auto : Bool
  deriving DecidableEq, Inhabited

namespace Section

def ofLayout (name : String) (start length : Word) (semantics : SectionSemantics) (auto : Bool) :
    Section :=
  ⟨name, .ofLength start length, semantics, "", none, none, 0, 1, 1, auto⟩

def withLinks (s : Section) (linked info : Option String) (infoData : Word) : Section :=
  { s with linkedSection := linked, infoSection := info, infoData := infoData }

def withLayout (s : Section) (align entrySize : Word) : Section :=
  { s with align := max align 1, entrySize := max entrySize 1 }

def text (s : Section) : String :=
  "Section(" ++ s.name ++ " " ++ s.range.text ++ " " ++ Named.name s.semantics ++ ")"

end Section

end BinaryAtlas
