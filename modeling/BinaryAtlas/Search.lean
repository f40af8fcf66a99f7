import BinaryAtlas.Listing.Cursor
import BinaryAtlas.Text.Lowercase

/-!
Searching a space for bytes, or its listing for text and constants. A search tells of each match and
now and then of its progress; whoever watches it keeps a state of their own, and may end the search
with each answer.
-/

set_option autoImplicit false

namespace BinaryAtlas

inductive SearchQuery where
  | data (pattern : List UInt8)
  | text (needle : String)
  | constant (value : Word)
  deriving DecidableEq, Inhabited

structure SearchMatch where
  address : Word
  value : SearchQuery
  line : Option ListingLine
  deriving DecidableEq, Inhabited

/-- What a watcher does with matches and progress, and whether the search goes on. -/
structure SearchWatcher (σ : Type) where
  onMatch : SearchMatch → σ → σ × Bool
  onProgress : Word → Word → σ → σ × Bool

/-- When progress is told: after so many bytes, and at the end. -/
structure ProgressMeter where
  start : Word
  total : Word
  granularity : Word
  last : Word
  deriving DecidableEq, Inhabited

namespace ProgressMeter

def ofRange (start stop granularity : Word) : ProgressMeter :=
  ⟨start, Word.subCapped stop start, max granularity 1, start⟩

def done (m : ProgressMeter) (position : Word) : Word :=
  min (max position m.start - m.start) m.total

def isDue (m : ProgressMeter) (position : Word) : Bool :=
  m.granularity ≤ max position m.start - m.last || m.total ≤ m.done position

def report {σ : Type} (m : ProgressMeter) (watcher : SearchWatcher σ) (position : Word)
    (state : σ) : ProgressMeter × σ × Bool :=
  if m.isDue position then
    let (state, more) := watcher.onProgress (m.done position) m.total state
    ({ m with last := max position m.start }, state, more)
  else (m, state, true)

end ProgressMeter

namespace Search

def foldByte (b : UInt8) : UInt8 := if 0x41 ≤ b && b ≤ 0x5a then b + 0x20 else b

def fold (caseSensitive : Bool) (bytes : List UInt8) : List UInt8 :=
  if caseSensitive then bytes else bytes.map foldByte

def occurrences (pattern : List UInt8) (position : Nat) : List UInt8 → List Nat
  | [] => []
  | b :: rest =>
    if pattern.isPrefixOf (b :: rest) then position :: occurrences pattern (position + 1) rest
    else occurrences pattern (position + 1) rest

def tellMatches {σ : Type} (watcher : SearchWatcher σ) : List SearchMatch → σ → σ × Bool
  | [], state => (state, true)
  | m :: rest, state =>
    match watcher.onMatch m state with
    | (state, false) => (state, false)
    | (state, true) => tellMatches watcher rest state

section Data

variable {σ : Type} (s : Space) (pattern : List UInt8) (caseSensitive : Bool) (stop : Word)
  (watcher : SearchWatcher σ)

def chunkMatches (position : Word) (bytes : List UInt8) (advance : Nat) : List SearchMatch :=
  ((occurrences (fold caseSensitive pattern) 0 (fold caseSensitive bytes)).takeWhile
    (· < advance)).map fun offset =>
      ⟨position + .ofNat offset, .data ((bytes.drop offset).take pattern.length), none⟩

/-- Reads chunk by chunk. A chunk that is not the last shares as many bytes with the next one as a
match may need; bytes that cannot be read are passed over one by one. -/
def scanData (chunk : Word) : Nat → Word → ProgressMeter → Bool → σ → Bool × σ
  | 0, _, _, found, state => (found, state)
  | fuel + 1, position, meter, found, state =>
    let position := s.nextValid position
    if stop ≤ position || !s.isValid position then
      (found, (meter.report watcher stop state).2.1)
    else
      let want := min (stop - position) chunk
      let bytes := s.read position want.toNat
      if bytes.isEmpty then scanData chunk fuel (position + 1) meter found state
      else
        let more := bytes.length == want.toNat && position + want < stop
        -- A match that begins in the last bytes is seen whole in the next chunk.
        let advance := if more then bytes.length - (pattern.length - 1) else bytes.length
        let hits := chunkMatches pattern caseSensitive position bytes advance
        let found := found || !hits.isEmpty
        match tellMatches watcher hits state with
        | (state, false) => (true, state)
        | (state, true) =>
          let position := position + .ofNat advance
          match meter.report watcher position state with
          | (_, state, false) => (found, state)
          | (meter, state, true) => scanData chunk fuel position meter found state

end Data

section Lines

variable {σ : Type} (s : Space) (test : ListingLine → Option SearchQuery) (start stop : Word)
  (watcher : SearchWatcher σ)

def lineMatches (lines : List ListingLine) : List SearchMatch :=
  lines.filterMap fun line =>
    if line.address < start || stop ≤ line.address then none
    else (test line).map fun value => ⟨line.address, value, some line⟩

def scanLines : Nat → ListingCursor → ProgressMeter → Bool → σ → Bool × σ
  | 0, _, _, found, state => (found, state)
  | fuel + 1, cursor, meter, found, state =>
    if cursor.pastEnd || stop ≤ cursor.address then
      (found, (meter.report watcher stop state).2.1)
    else
      let hits := lineMatches test start stop cursor.lines
      let found := found || !hits.isEmpty
      match tellMatches watcher hits state with
      | (state, false) => (true, state)
      | (state, true) =>
        match meter.report watcher cursor.address state with
        | (_, state, false) => (found, state)
        | (meter, state, true) =>
          match cursor.next s with
          | (_, false) => (found, (meter.report watcher stop state).2.1)
          | (cursor, true) => scanLines fuel cursor meter found state

end Lines

def isInfix (needle : List Char) : List Char → Bool
  | [] => needle.isEmpty
  | c :: rest => needle.isPrefixOf (c :: rest) || isInfix needle rest

def matchText (needle : String) (caseSensitive : Bool) (line : ListingLine) :
    Option SearchQuery :=
  let text := if caseSensitive then line.text else lowercase line.text
  let needle := if caseSensitive then needle else lowercase needle
  if isInfix needle.toList text.toList then some (.text line.text) else none

def matchConstant (value : Word) (line : ListingLine) : Option SearchQuery :=
  if line.tokens.any fun t =>
      (t.kind == .integer || t.kind == .possibleAddress) && t.value == value then
    some (.constant value)
  else none

end Search

namespace Space

def findData {σ : Type} (s : Space) (start stop : Word) (pattern : List UInt8)
    (caseSensitive : Bool) (watcher : SearchWatcher σ) (state : σ) : Bool × σ :=
  if pattern.isEmpty || stop ≤ start then (false, state)
  else
    let chunk := max s.config.search.chunkSize (.ofNatCapped (pattern.length * 2))
    Search.scanData s pattern caseSensitive stop watcher chunk ((stop - start).toNat + 1) start
      (.ofRange start stop s.config.search.progressGranularity) false state

def findInLines {σ : Type} (s : Space) (start stop : Word) (settings : ListingSettings)
    (test : ListingLine → Option SearchQuery) (watcher : SearchWatcher σ) (state : σ) : Bool × σ :=
  if stop ≤ start then (false, state)
  else
    -- The unit that is gone to may begin, and end, far below the range, where others lie over it.
    Search.scanLines s test start stop watcher (stop.toNat + 1)
      ((ListingCursor.ofStart s settings).seek s start)
      (.ofRange start stop s.config.search.progressGranularity) false state

/-- Searches a range; the answer says whether anything was found. Case matters for bytes and text
unless said otherwise; an empty query matches nothing. -/
def find {σ : Type} (s : Space) (start stop : Word) (query : SearchQuery)
    (settings : ListingSettings) (caseSensitive : Bool) (watcher : SearchWatcher σ) (state : σ) :
    Bool × σ :=
  match query with
  | .data pattern => s.findData start stop pattern caseSensitive watcher state
  | .text needle =>
    if needle = "" then (false, state)
    else s.findInLines start stop settings (Search.matchText needle caseSensitive) watcher state
  | .constant value =>
    s.findInLines start stop settings (Search.matchConstant value) watcher state

def keepMatches (limit : Option Nat) : SearchWatcher (List SearchMatch) where
  onMatch m kept := (kept ++ [m], decide (limit ≠ some (kept.length + 1)))
  onProgress _ _ kept := (kept, true)

def findNext (s : Space) (start : Word) (query : SearchQuery) (settings : ListingSettings)
    (caseSensitive : Bool) : Option Word :=
  ((s.find start s.stop query settings caseSensitive (keepMatches (some 1)) []).2.head?).map
    (·.address)

def matchesIn (s : Space) (start stop : Word) (query : SearchQuery) (settings : ListingSettings)
    (caseSensitive : Bool) : List SearchMatch :=
  (s.find start stop query settings caseSensitive (keepMatches none) []).2

end Space

end BinaryAtlas
