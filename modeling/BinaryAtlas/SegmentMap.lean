import BinaryAtlas.Segment
import BinaryAtlas.Table

/-!
The segments and sections of an address space. Each kind has two layers: what analysis or a loader
put there, and what a user did. Within a layer segments do not overlap; where both layers have one,
the user's is in effect.
-/

set_option autoImplicit false

namespace BinaryAtlas

abbrev SegmentLayer := Table Word Segment

namespace SegmentLayer

def at? (layer : SegmentLayer) (a : Word) : Option Segment :=
  match layer.atOrBelow? a with
  | some (_, s) => if s.contains a then some s else none
  | none => none

def nextStart? (layer : SegmentLayer) (a : Word) : Option Word :=
  -- The first start at or behind an address, of a segment that is not empty.
  (layer.entries.find? (fun e => a ≤ e.1 && !e.2.range.isEmpty)).map (·.2.start)

/-- The segment that reaches furthest up among those that begin below the end of another one. -/
def rival? (layer : SegmentLayer) (s : Segment) : Option Segment :=
  (layer.below? (max s.stop (Word.addCapped s.start 1))).map (·.2)

end SegmentLayer

structure SegmentMap where
  autoSegments : SegmentLayer
  userSegments : SegmentLayer
  autoSections : Table String Section
  userSections : Table String Section
  lastId : Nat
  deriving DecidableEq, Inhabited

namespace SegmentMap

def empty : SegmentMap := ⟨.empty, .empty, .empty, .empty, 0⟩

def layer (m : SegmentMap) (auto : Bool) : SegmentLayer :=
  if auto then m.autoSegments else m.userSegments

def withLayer (m : SegmentMap) (auto : Bool) (layer : SegmentLayer) : SegmentMap :=
  if auto then { m with autoSegments := layer } else { m with userSegments := layer }

def put (m : SegmentMap) (s : Segment) : SegmentMap :=
  m.withLayer s.auto ((m.layer s.auto).insert s.start s)

def overlapError (s : Segment) : AtlasError := .segmentOverlap s.start s.stop

def add (m : SegmentMap) (s : Segment) : Except AtlasError (SegmentMap × Nat) :=
  let layer := m.layer s.auto
  let clash := match layer.rival? s with
    | some rival => rival.range.overlaps s.range
    | none => false
  if layer.contains s.start || clash then .error (overlapError s)
  else
    let id := m.lastId + 1
    .ok ({ m with lastId := id }.put { s with id := id }, id)

def restore (m : SegmentMap) (s : Segment) : Except AtlasError SegmentMap :=
  let clash := match (m.layer s.auto).rival? s with
    | some rival => rival.range.overlaps s.range || rival.start == s.start
    | none => false
  if clash then .error (overlapError s)
  else .ok ({ m with lastId := max m.lastId s.id }.put s)

def remove (m : SegmentMap) (start : Word) (auto : Bool) : SegmentMap × Option Segment :=
  (m.withLayer auto ((m.layer auto).erase start), (m.layer auto).get? start)

def clearAuto (m : SegmentMap) : SegmentMap × List Segment :=
  ({ m with autoSegments := .empty }, m.autoSegments.values)

def allSegments (m : SegmentMap) : List Segment :=
  m.userSegments.values ++ m.autoSegments.values

def at? (m : SegmentMap) (a : Word) : Option Segment :=
  m.userSegments.at? a <|> m.autoSegments.at? a

/-- The segment in effect at an address, and where it stops being so. -/
def span? (m : SegmentMap) (a : Word) : Option (Segment × Word) :=
  match m.userSegments.at? a with
  | some s => some (s, s.stop)
  | none =>
    match m.autoSegments.at? a with
    | some s =>
      -- A user segment that begins further up hides the rest.
      match m.userSegments.nextStart? a with
      | some start => some (s, min start s.stop)
      | none => some (s, s.stop)
    | none => none

def lesser : Option Word → Option Word → Option Word
  | some a, some b => some (min a b)
  | none, b => b
  | a, none => a

def nextStart? (m : SegmentMap) (a : Word) : Option Word :=
  lesser (m.userSegments.nextStart? a) (m.autoSegments.nextStart? a)

def nextStartAfter? (m : SegmentMap) (a : Word) : Option Word :=
  match Word.add? a 1 with
  | some next => m.nextStart? next
  | none => none

def byId? (m : SegmentMap) (id : Nat) : Option Segment :=
  m.allSegments.find? (·.id == id)

def inOrder (s t : Segment) : Bool :=
  -- Earlier start first; of two at one start the user's.
  s.start < t.start || (s.start == t.start && (!s.auto || t.auto))

def segments (m : SegmentMap) : List Segment := m.allSegments.mergeSort inOrder

def count (m : SegmentMap) : Nat := m.userSegments.size + m.autoSegments.size

def isValid (m : SegmentMap) (a : Word) : Bool := (m.at? a).isSome

def nextValid? (m : SegmentMap) (a : Word) : Option Word :=
  if m.isValid a then some a else m.nextStart? a

def start (m : SegmentMap) : Word :=
  (((m.allSegments.filter (!·.range.isEmpty)).map (·.start)).min?).getD 0

def stop (m : SegmentMap) : Word := ((m.allSegments.map (·.stop)).max?).getD 0

def addressOfData? (m : SegmentMap) (offset : Word) : Option Word :=
  (m.allSegments.filterMap (·.addressOfData? offset)).find? fun a =>
    (m.at? a).bind (·.dataOffsetOf? a) == some offset

/-- Adds a section to its layer, in place of one with the same name. -/
def addSection (m : SegmentMap) (s : Section) : SegmentMap × Option Section :=
  if s.auto then
    ({ m with autoSections := m.autoSections.insert s.name s }, m.autoSections.get? s.name)
  else
    ({ m with userSections := m.userSections.insert s.name s }, m.userSections.get? s.name)

def removeSection (m : SegmentMap) (name : String) (auto : Bool) : SegmentMap × Option Section :=
  if auto then
    ({ m with autoSections := m.autoSections.erase name }, m.autoSections.get? name)
  else
    ({ m with userSections := m.userSections.erase name }, m.userSections.get? name)

def section? (m : SegmentMap) (name : String) : Option Section :=
  m.userSections.get? name <|> m.autoSections.get? name

def allSections (m : SegmentMap) : List Section :=
  m.userSections.values ++ m.autoSections.values

def sectionInOrder (s t : Section) : Bool :=
  s.range.start < t.range.start ||
    (s.range.start == t.range.start && (compare s.name t.name).isLE)

def effectiveSections (m : SegmentMap) : List Section :=
  -- The sections in effect: a user's one hides the other of its name.
  m.userSections.values ++ m.autoSections.values.filter (fun s => !m.userSections.contains s.name)

def sections (m : SegmentMap) : List Section := m.effectiveSections.mergeSort sectionInOrder

def sectionsAt (m : SegmentMap) (a : Word) : List Section :=
  (m.effectiveSections.filter (·.range.contains a)).mergeSort sectionInOrder

def sectionNames (m : SegmentMap) : List String := m.sections.map (·.name)

def rangeInOrder (r t : AddressRange) : Bool := (compare r t).isLE

/-- Notes a relocation on the segment in effect where it starts, if there is one. -/
def addRelocation (m : SegmentMap) (range : AddressRange) : SegmentMap × Bool :=
  match m.at? range.start with
  | none => (m, false)
  | some s =>
    if s.relocations.contains range then (m, true)
    else
      (m.put { s with relocations := (s.relocations ++ [range]).mergeSort rangeInOrder }, true)

def relocations (m : SegmentMap) : List AddressRange :=
  ((m.allSegments.flatMap (·.relocations)).mergeSort rangeInOrder).eraseReps

end SegmentMap

end BinaryAtlas
