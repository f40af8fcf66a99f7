import BinaryAtlas.Listing.Unit

/-!
A place in a listing, from which one can go forward and back unit by unit. The space is looked at
anew with each step, so a cursor notices changes when it moves.
-/

set_option autoImplicit false

namespace BinaryAtlas

structure ListingCursor where
  settings : ListingSettings
  address : Word
  stop : Word
  lines : List ListingLine
  pastEnd : Bool
  deriving DecidableEq, Inhabited

namespace ListingCursor

def enter (c : ListingCursor) (unit : ListingUnit) : ListingCursor :=
  { c with address := unit.start, stop := unit.stop, lines := unit.lines, pastEnd := false }

def leave (c : ListingCursor) (a : Word) : ListingCursor :=
  { c with address := a, stop := a, lines := [], pastEnd := true }

def seek (c : ListingCursor) (s : Space) (a : Word) : ListingCursor :=
  let target := if s.isValid a then some a else Listing.nextValid? s a
  let unit := (target.bind (Listing.unitStart? s c.settings)).bind (Listing.unitAt? s c.settings)
  match unit with
  | some unit => c.enter unit
  | none => c.leave (target.getD a)

def reset (c : ListingCursor) (s : Space) : ListingCursor := c.seek s s.start

def ofStart (s : Space) (settings : ListingSettings) : ListingCursor :=
  (⟨settings, s.start, s.start, [], false⟩ : ListingCursor).reset s

def next (c : ListingCursor) (s : Space) : ListingCursor × Bool :=
  if c.pastEnd then (c, false)
  else
    match (Listing.nextValid? s c.stop).bind (Listing.unitAt? s c.settings) with
    | some unit => (c.enter unit, true)
    | none => (c.leave c.stop, false)

def front (c : ListingCursor) (s : Space) : Word := if c.pastEnd then s.stop else c.address

def previous (c : ListingCursor) (s : Space) : ListingCursor × Bool :=
  match ((Listing.previousValid? s (c.front s)).bind
      (Listing.unitStart? s c.settings)).bind (Listing.unitAt? s c.settings) with
  | some unit => (c.enter unit, true)
  | none => (c, false)

def hasNext (c : ListingCursor) (s : Space) : Bool :=
  !c.pastEnd && (Listing.nextValid? s c.stop).isSome

def hasPrevious (c : ListingCursor) (s : Space) : Bool :=
  (Listing.previousValid? s (c.front s)).isSome

def walk (step : ListingCursor → ListingCursor × Bool) :
    Nat → ListingCursor → ListingCursor × List Word
  | 0, c => (c, [c.address])
  | moves + 1, c =>
    match step c with
    | (after, false) => (after, [c.address])
    | (after, true) =>
      let (last, addresses) := walk step moves after
      (last, c.address :: addresses)

def takeLines (s : Space) (limit : Nat) : Nat → ListingCursor → ListingCursor × List ListingLine
  | 0, c => (c, [])
  | fuel + 1, c =>
    if limit ≤ c.lines.length then (c, c.lines.take limit)
    else
      match c.next s with
      | (after, false) => (after, c.lines)
      | (after, true) =>
        let (last, lines) := takeLines s (limit - c.lines.length) fuel after
        (last, c.lines ++ lines)

/-- The lines at the cursor, which moves on behind them. Units without lines are passed over. -/
def nextLines (s : Space) : Nat → ListingCursor → ListingCursor × List ListingLine
  | 0, c => (c, [])
  | fuel + 1, c =>
    if c.pastEnd then (c, [])
    else
      let (after, _) := c.next s
      if c.lines.isEmpty then nextLines s fuel after else (after, c.lines)

def previousLines (s : Space) : Nat → ListingCursor → ListingCursor × List ListingLine
  | 0, c => (c, [])
  | fuel + 1, c =>
    match c.previous s with
    | (after, false) => (after, [])
    | (after, true) =>
      if after.lines.isEmpty then previousLines s fuel after else (after, after.lines)

end ListingCursor

end BinaryAtlas
