import BinaryAtlas.AtlasError

/-!
Half-open ranges of addresses.
-/

set_option autoImplicit false

namespace BinaryAtlas

/-- The addresses from `start` on and below `stop`. -/
structure AddressRange where
  start : Word
  stop : Word
  deriving DecidableEq, Inhabited

namespace AddressRange

def ofBounds (start stop : Word) : Except AtlasError AddressRange :=
  if stop < start then
    .error (.invalidArgument s!"range start {start.hexText} is past end {stop.hexText}")
  else .ok ⟨start, stop⟩

def ofLength (start length : Word) : AddressRange :=
  -- The `length` bytes from `start` on, cut off at the largest address.
  ⟨start, Word.addCapped start length⟩

def length (r : AddressRange) : Word := r.stop - r.start

def isEmpty (r : AddressRange) : Bool := r.start == r.stop

def contains (r : AddressRange) (a : Word) : Bool := r.start ≤ a && a < r.stop

theorem contains_iff {r : AddressRange} {a : Word} :
    r.contains a = true ↔ r.start ≤ a ∧ a < r.stop := by
  simp [contains]

def containsRange (r other : AddressRange) : Bool :=
  r.start ≤ other.start && other.stop ≤ r.stop

def overlaps (r other : AddressRange) : Bool :=
  r.start < other.stop && other.start < r.stop

def meet? (r other : AddressRange) : Option AddressRange :=
  let start := max r.start other.start
  let stop := min r.stop other.stop
  if start < stop then some ⟨start, stop⟩ else none

instance : Ord AddressRange where
  compare r other := (compare r.start other.start).then (compare r.stop other.stop)

def text (r : AddressRange) : String :=
  "[" ++ r.start.hexText ++ ", " ++ r.stop.hexText ++ ")"

end AddressRange

end BinaryAtlas
