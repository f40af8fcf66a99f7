import BinaryAtlas.Endianness
import BinaryAtlas.SegmentMap
import BinaryAtlas.Storage

/-!
How an address space turns addresses into stored bytes. A raw space is the storage itself; a mapped
one goes through its segments.
-/

set_option autoImplicit false

namespace BinaryAtlas

namespace SegmentMap

/-- Bytes from `a` on, at most `length` of them. The part of a segment that is not stored reads as
zeros. Reading ends where nothing is mapped, or where the storage ends before the segment does. -/
def read (m : SegmentMap) (storage : Storage) (a : Word) (length : Nat) : List UInt8 :=
  match m.span? a with
  | none => []
  | some (s, stop) =>
    let want := min length (stop - a).toNat
    if want = 0 then []
    else
      let dataStop := s.start + s.dataLength
      if a < dataStop then
        let stored := min want (dataStop - a).toNat
        let bytes := storage.read (s.dataOffset + (a - s.start)) stored
        if bytes.length < stored then bytes
        else
          bytes ++ List.replicate (want - stored) 0 ++
            m.read storage (a + .ofNat want) (length - want)
      else List.replicate want 0 ++ m.read storage (a + .ofNat want) (length - want)
termination_by length
decreasing_by all_goals omega

/-- Overwrites stored bytes from `a` on, up to the first address that cannot be written or is not
stored. The answer counts the bytes taken. -/
def write (m : SegmentMap) (storage : Storage) (a : Word) (data : List UInt8) : Storage × Nat :=
  match m.span? a with
  | none => (storage, 0)
  | some (s, stop) =>
    let dataStop := min (s.start + s.dataLength) stop
    if s.isWritable && a < dataStop then
      let want := min data.length (dataStop - a).toNat
      if want = 0 then (storage, 0)
      else
        let (storage, count) := storage.write (s.dataOffset + (a - s.start)) (data.take want)
        if count < want then (storage, count)
        else
          -- The next piece may be in another segment.
          let (storage, more) := m.write storage (a + .ofNat want) (data.drop want)
          (storage, want + more)
    else (storage, 0)
termination_by data.length
decreasing_by
  rename_i h _
  simp only [want, dataStop] at h
  rw [List.length_drop]
  omega

def storedAt? (m : SegmentMap) (storage : Storage) (a : Word) : Option Word :=
  match (m.at? a).bind (·.dataOffsetOf? a) with
  | some offset => if offset < storage.length then some offset else none
  | none => none

end SegmentMap

inductive Backend where
  | raw
  | mapped (label : String)
  deriving DecidableEq, Inhabited

namespace Backend

def name : Backend → String
  | raw => "Raw"
  | mapped label => if label = "" then "Mapped" else label

def read (b : Backend) (m : SegmentMap) (storage : Storage) (a : Word) (length : Nat) :
    List UInt8 :=
  match b with
  | raw => storage.read a length
  | mapped _ => m.read storage a length

def write (b : Backend) (m : SegmentMap) (storage : Storage) (a : Word) (data : List UInt8) :
    Storage × Nat :=
  match b with
  | raw => storage.write a data
  | mapped _ => m.write storage a data

def insert (b : Backend) (storage : Storage) (a : Word) (data : List UInt8) : Storage × Nat :=
  match b with
  | raw => storage.insert a data
  | mapped _ => (storage, 0)

def remove (b : Backend) (storage : Storage) (a length : Word) : Storage × Word :=
  match b with
  | raw => storage.remove a length
  | mapped _ => (storage, 0)

def status? (b : Backend) (m : SegmentMap) (storage : Storage) (a : Word) : Option ByteStatus :=
  match b with
  | raw => if a < storage.length then some (storage.log.statusAt a) else none
  | mapped _ => (m.storedAt? storage a).map storage.log.statusAt

def isValid (b : Backend) (m : SegmentMap) (storage : Storage) (a : Word) : Bool :=
  match b with
  | raw => a < storage.length
  | mapped _ => m.isValid a

def isReadable (b : Backend) (m : SegmentMap) (storage : Storage) (a : Word) : Bool :=
  match b with
  | raw => a < storage.length
  | mapped _ => (m.at? a).any (·.isReadable)

def isWritable (b : Backend) (m : SegmentMap) (storage : Storage) (a : Word) : Bool :=
  match b with
  | raw => a < storage.length
  | mapped _ => (m.at? a).any (·.isWritable)

def isExecutableAt (b : Backend) (m : SegmentMap) (a : Word) : Bool :=
  match b with
  | raw => false
  | mapped _ => (m.at? a).any (·.isExecutable)

def isStored (b : Backend) (m : SegmentMap) (storage : Storage) (a : Word) : Bool :=
  match b with
  | raw => a < storage.length
  | mapped _ => (m.storedAt? storage a).isSome

def start (b : Backend) (m : SegmentMap) : Word :=
  match b with
  | raw => 0
  | mapped _ => m.start

def length (b : Backend) (m : SegmentMap) (storage : Storage) : Word :=
  match b with
  | raw => storage.length
  | mapped _ => m.stop - m.start

/-- The address itself if it is valid, or the next one that is, or the end of the space. -/
def nextValid (b : Backend) (m : SegmentMap) (storage : Storage) (a : Word) : Word :=
  match b with
  | raw => min a storage.length
  | mapped _ => (m.nextValid? a).getD (m.start + (m.stop - m.start))

def isExecutable : Backend → Bool
  | raw => false
  | mapped _ => true

def defaultEndianness : Backend → Endianness := fun _ => .little

def isRelocatable : Backend → Bool := fun _ => false

def addressSize : Backend → Nat := fun _ => 8

def entryPoint? : Backend → Option Word := fun _ => none

end Backend

end BinaryAtlas
