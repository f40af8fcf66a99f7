import BinaryAtlas.Entropy
import BinaryAtlas.Space
import BinaryAtlas.Text.Quoted

/-!
The bytes of a space: reading, writing, and what is valid at an address.
-/

set_option autoImplicit false

namespace BinaryAtlas

namespace Space

def read (s : Space) (a : Word) (length : Nat) : List UInt8 :=
  s.backend.read s.map s.storage a length

def write (a : Word) (data : List UInt8) : Op Nat := do
  if data.isEmpty then pure 0
  else
    let before ← Op.read (·.read a data.length)
    let count ← Op.update fun s =>
      let (storage, count) := s.backend.write s.map s.storage a data
      ({ s with storage := storage }, count)
    if count = 0 then pure 0
    else
      record (.write a (before.take count) (data.take count))
      emit [.dataWritten a (.ofNatCapped count)]
      pure count

def insert (a : Word) (data : List UInt8) : Op Nat := do
  if data.isEmpty then pure 0
  else
    let count ← Op.update fun s =>
      let (storage, count) := s.backend.insert s.storage a data
      ({ s with storage := storage }, count)
    if count = 0 then pure 0
    else
      record (.insert a (data.take count))
      emit [.dataInserted a (.ofNatCapped count)]
      pure count

def remove (a length : Word) : Op Word := do
  if length = 0 then pure 0
  else
    let before ← Op.read (·.read a length.toNat)
    let count ← Op.update fun s =>
      let (storage, count) := s.backend.remove s.storage a length
      ({ s with storage := storage }, count)
    if count = 0 then pure 0
    else
      record (.remove a (before.take count.toNat))
      emit [.dataRemoved a count]
      pure count

def status? (s : Space) (a : Word) : Option ByteStatus := s.backend.status? s.map s.storage a

def statuses (s : Space) (a : Word) : Nat → List ByteStatus
  | 0 => []
  | length + 1 =>
    match s.status? a with
    | none => []
    | some status =>
      match Word.add? a 1 with
      | some next => status :: s.statuses next length
      | none => [status]

def isModified (s : Space) : Bool := s.storage.log.isModified

def isValid (s : Space) (a : Word) : Bool := s.backend.isValid s.map s.storage a

def isReadable (s : Space) (a : Word) : Bool := s.backend.isReadable s.map s.storage a

def isWritable (s : Space) (a : Word) : Bool := s.backend.isWritable s.map s.storage a

def isExecutableAt (s : Space) (a : Word) : Bool := s.backend.isExecutableAt s.map a

def isStored (s : Space) (a : Word) : Bool := s.backend.isStored s.map s.storage a

def nextValid (s : Space) (a : Word) : Word := s.backend.nextValid s.map s.storage a

def hasCodeSemantics (s : Space) (a : Word) : Bool :=
  -- The sections say so, or where there are none the address is executable.
  match s.map.sectionsAt a with
  | [] => s.isExecutableAt a
  | sections => sections.any (·.semantics == .readOnlyCode)

def hasExternalSemantics (s : Space) (a : Word) : Bool :=
  (s.map.sectionsAt a).any (·.semantics == .external)

def hasWritableSemantics (s : Space) (a : Word) : Bool :=
  -- Writable, and no section says that it is only read.
  s.isWritable a && !(s.map.sectionsAt a).any fun section_ =>
    section_.semantics == .readOnlyCode || section_.semantics == .readOnlyData

def start (s : Space) : Word := s.backend.start s.map

def length (s : Space) : Word := s.backend.length s.map s.storage

def stop (s : Space) : Word := s.start + s.length

def isEmpty (s : Space) : Bool := s.length == 0

def addressSize (s : Space) : Nat :=
  match s.architecture with
  | some a => a.addressSize
  | none => s.backend.addressSize

def endianness (s : Space) : Endianness :=
  match s.architecture with
  | some a => a.endianness
  | none => s.backend.defaultEndianness

def signedValue (raw : Word) (size : Nat) : Int := Int.bmod raw.toNat (1 <<< (8 * size))

def readInteger? (s : Space) (a : Word) (size : Nat) (signed : Bool) (order : Endianness) :
    Option Int :=
  if size = 0 ∨ 8 < size then none
  else
    let bytes := s.read a size
    if bytes.length < size then none
    else
      let raw := order.value bytes
      some (if signed then signedValue raw size else raw.toNat)

def readPointer? (s : Space) (a : Word) : Option Word :=
  (s.readInteger? a s.addressSize false s.endianness).map fun i => .ofNat i.toNat

def entropies (s : Space) (a stop block : Word) : List Float32 :=
  if a < stop then
    let n := min block (stop - a)
    if n = 0 then []
    else
      let data := s.read a n.toNat
      if data.isEmpty then [] else Entropy.normalized data :: s.entropies (a + n) stop block
  else []
termination_by (stop - a).toNat
decreasing_by
  rename_i h hn _
  simp only [n] at hn
  rw [UInt64.lt_iff_toNat_lt] at h
  rw [← UInt64.toNat_inj] at hn
  have hle : a ≤ stop := UInt64.le_iff_toNat_le.2 (by omega)
  have hd := UInt64.toNat_sub_of_le _ _ hle
  have hmin : (min block (stop - a)).toNat = min block.toNat (stop - a).toNat := by
    show (if block ≤ stop - a then block else stop - a).toNat = _
    split <;> rename_i hb <;> rw [UInt64.le_iff_toNat_le] at hb <;> omega
  have h0 : (0 : Word).toNat = 0 := rfl
  have hbound := stop.toNat_lt
  have hsum : (a + min block (stop - a)).toNat = a.toNat + (min block (stop - a)).toNat := by
    rw [UInt64.toNat_add, hmin]; omega
  have hle' : a + min block (stop - a) ≤ stop := UInt64.le_iff_toNat_le.2 (by omega)
  rw [UInt64.toNat_sub_of_le _ _ hle']
  omega

def entropyBlocks (s : Space) (a length block : Word) : List Float32 :=
  -- Entropies block by block; a block size of zero stands for the configured one.
  s.entropies a (Word.addCapped a length)
    (if block = 0 then s.config.entropy.defaultBlockSize else block)

def summary (s : Space) : String :=
  "AddressSpace \x7b view_type: " ++ Quoted.text s.viewType ++ ", segments: " ++
    toString s.map.count ++ ", has_parent: " ++ toString s.parentView.isSome ++ " \x7d"

end Space

end BinaryAtlas
