import BinaryAtlas.Space

/-!
Changing the segments, sections and relocations of a space.
-/

set_option autoImplicit false

namespace BinaryAtlas

namespace Space

def addSegment (segment : Segment) : Op (Except AtlasError Nat) := do
  match (← Op.read (·.map)).add segment with
  | .error e => pure (.error e)
  | .ok (map, id) =>
    editMap fun _ => map
    match map.byId? id with
    | some stored =>
      recordIf (!stored.auto) (.segment stored.start none (some stored))
      emit [.segmentAdded stored]
    | none => pure ()
    pure (.ok id)

def addSegmentOfLayout (start length dataOffset dataLength : Word) (flags : SegmentFlags)
    (auto : Bool) : Op (Except AtlasError Nat) := do
  match Segment.ofLayout start length dataOffset dataLength flags auto with
  | .error e => pure (.error e)
  | .ok segment => addSegment segment

def removeSegment (start : Word) (auto : Bool) : Op Bool := do
  let removed ← Op.update fun s =>
    let (map, removed) := s.map.remove start auto
    ({ s with map := map }, removed)
  match removed with
  | none => pure false
  | some segment =>
    recordIf (!auto) (.segment start (some segment) none)
    emit [.segmentRemoved segment]
    pure true

def restoreSegment (start : Word) (state : Option Segment) : Op Unit := do
  let events ← Op.update fun s =>
    let (map, removed) := s.map.remove start false
    let gone := removed.toList.map ChangeEvent.segmentRemoved
    match state with
    | none => ({ s with map := map }, gone)
    | some segment =>
      match map.restore segment with
      | .ok map => ({ s with map := map }, gone ++ [.segmentAdded segment])
      | .error _ => ({ s with map := map }, gone)
  emit events

def addSection (section_ : Section) (auto : Bool) : Op Unit := do
  let section_ := { section_ with auto := auto }
  let replaced ← Op.update fun s =>
    let (map, replaced) := s.map.addSection section_
    ({ s with map := map }, replaced)
  recordIf (!auto) (.section section_.name replaced (some section_))
  emit (replaced.toList.map ChangeEvent.sectionRemoved ++ [.sectionAdded section_])

def removeSection (name : String) (auto : Bool) : Op Bool := do
  let removed ← Op.update fun s =>
    let (map, removed) := s.map.removeSection name auto
    ({ s with map := map }, removed)
  match removed with
  | none => pure false
  | some section_ =>
    recordIf (!auto) (.section name (some section_) none)
    emit [.sectionRemoved section_]
    pure true

def restoreSection (name : String) (state : Option Section) : Op Unit := do
  let events ← Op.update fun s =>
    let (map, removed) := s.map.removeSection name false
    let gone := removed.toList.map ChangeEvent.sectionRemoved
    match state with
    | none => ({ s with map := map }, gone)
    | some section_ =>
      ({ s with map := (map.addSection section_).1 }, gone ++ [.sectionAdded section_])
  emit events

def defineRelocation (range : AddressRange) : Op Bool :=
  .update fun s =>
    let (map, found) := s.map.addRelocation range
    ({ s with map := map }, found)

def relocationsAt (s : Space) (a : Word) : List AddressRange :=
  s.map.relocations.filter (·.contains a)

def hasRelocationIn (s : Space) (a length : Word) : Bool :=
  -- A relocation touches the range, which counts as one byte at least.
  s.map.relocations.any (·.overlaps (.ofLength a (max length 1)))

end Space

end BinaryAtlas
