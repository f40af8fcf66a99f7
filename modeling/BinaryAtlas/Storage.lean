import BinaryAtlas.PatchLog

/-!
The stored bytes behind an address space, with the log of what was done to them. A medium decides
what can be done: memory takes all of it, a mapped file keeps its length, and a provider is whatever
its two functions make of it.
-/

set_option autoImplicit false

namespace BinaryAtlas

/-- Access to bytes kept elsewhere. `read` takes the bytes there, an offset and a length, and may
answer with more than was asked for; `write?` gives the bytes afterwards and how many it took. -/
structure Provider where
  read : List UInt8 → Word → Nat → List UInt8
  write? : Option (List UInt8 → Word → List UInt8 → List UInt8 × Nat)

inductive Medium where
  | memory
  | file
  | provider (access : Provider)

namespace Medium

def kind : Medium → String
  | memory => "buffer"
  | file => "file"
  | provider _ => "callback"

end Medium

structure Storage where
  medium : Medium
  contents : List UInt8
  log : PatchLog

namespace Storage

def ofMedium (medium : Medium) (contents : List UInt8) : Storage := ⟨medium, contents, .empty⟩

def inMemory (contents : List UInt8) : Storage := ofMedium .memory contents

def size (s : Storage) : Nat := s.contents.length

def length (s : Storage) : Word := .ofNatCapped s.size

def isEmpty (s : Storage) : Bool := s.contents.isEmpty

def slice (bytes : List UInt8) (offset length : Nat) : List UInt8 :=
  (bytes.drop offset).take length

def overwrite (bytes : List UInt8) (offset : Nat) (data : List UInt8) : List UInt8 :=
  if offset < bytes.length then
    bytes.take offset ++ data.take (bytes.length - offset) ++
      bytes.drop (offset + min data.length (bytes.length - offset))
  else bytes

def room (bytes : List UInt8) (offset : Nat) (data : List UInt8) : Nat :=
  min data.length (bytes.length - offset)

def read (s : Storage) (offset : Word) (length : Nat) : List UInt8 :=
  match s.medium with
  | .memory | .file => slice s.contents offset.toNat length
  | .provider access => (access.read s.contents offset length).take length

def written (s : Storage) (offset : Word) (data : List UInt8) : List UInt8 × Nat :=
  match s.medium with
  | .memory | .file =>
    (overwrite s.contents offset.toNat data, room s.contents offset.toNat data)
  | .provider access =>
    match access.write? with
    | some write =>
      let (contents, count) := write s.contents offset data
      (contents, min count data.length)
    | none => (s.contents, 0)

def write (s : Storage) (offset : Word) (data : List UInt8) : Storage × Nat :=
  let before := s.read offset data.length
  let (contents, count) := s.written offset data
  ({ s with contents := contents,
            log := s.log.markDifferences offset none before (data.take count) }, count)

def insert (s : Storage) (offset : Word) (data : List UInt8) : Storage × Nat :=
  -- Puts bytes in between; only memory can grow.
  match s.medium with
  | .memory =>
    if offset.toNat ≤ s.size then
      ({ s with contents := s.contents.take offset.toNat ++ data ++ s.contents.drop offset.toNat,
                log := s.log.insertShift offset (.ofNatCapped data.length) }, data.length)
    else (s, 0)
  | _ => (s, 0)

def remove (s : Storage) (offset length : Word) : Storage × Word :=
  -- Takes bytes out; only memory can shrink.
  match s.medium with
  | .memory =>
    if offset.toNat < s.size then
      let removed := min length.toNat (s.size - offset.toNat)
      ({ s with contents := s.contents.take offset.toNat ++
                  s.contents.drop (offset.toNat + removed),
                log := s.log.removeShift offset (.ofNatCapped removed) }, .ofNatCapped removed)
    else (s, 0)
  | _ => (s, 0)

def wholeContents (s : Storage) : List UInt8 := s.read 0 s.size

end Storage

end BinaryAtlas
