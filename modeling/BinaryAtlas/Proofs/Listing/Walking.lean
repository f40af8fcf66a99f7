import BinaryAtlas.Decoder.Toy
import BinaryAtlas.Listing.Cursor
import BinaryAtlas.Proofs.Listing.Sequence
import BinaryAtlas.Proofs.Space.Reaching

/-!
Going through a listing unit by unit: backward it shows the units that it shows forward, and a
search for an address ends at the unit that holds it.
-/

set_option autoImplicit false

namespace BinaryAtlas

namespace ListingCursor

def ofUnit (settings : ListingSettings) (unit : ListingUnit) : ListingCursor :=
  ⟨settings, unit.start, unit.stop, unit.lines, false⟩

/-- The unit at the cursor, if it has not left them all behind. -/
def here (c : ListingCursor) : List Word := if c.pastEnd then [] else [c.address]

variable {step : ListingCursor → ListingCursor × Bool} {c last last' : ListingCursor}
  {units units' : List Word}

/-- Doing a step until it answers that there is no more: the units that are met, from the one at the
cursor on, and the cursor in the end. -/
inductive Walks (step : ListingCursor → ListingCursor × Bool) :
    ListingCursor → List Word → ListingCursor → Prop where
  | stop {c after : ListingCursor} (refused : step c = (after, false)) : Walks step c c.here after
  | move {c after last : ListingCursor} {units : List Word} (moved : step c = (after, true))
      (rest : Walks step after units last) : Walks step c (c.here ++ units) last

theorem Walks.unique (walks : Walks step c units last) (walks' : Walks step c units' last') :
    units' = units ∧ last' = last := by
  induction walks generalizing units' with
  | stop refused =>
    cases walks' with
    | stop refused' =>
      rw [refused] at refused'
      exact ⟨rfl, (Prod.mk.inj refused').1.symm⟩
    | move moved =>
      rw [refused] at moved
      cases (Prod.mk.inj moved).2
  | move moved _ ih =>
    cases walks' with
    | stop refused =>
      rw [moved] at refused
      cases (Prod.mk.inj refused).2
    | move moved' rest =>
      rw [moved] at moved'
      obtain rfl := (Prod.mk.inj moved').1
      obtain ⟨rfl, rfl⟩ := ih rest
      exact ⟨rfl, rfl⟩

/-- A bounded walk that stops short of its bound has met everything. -/
theorem walks_of_walk (entered : ∀ {c after}, step c = (after, true) → after.pastEnd = false)
    (inside : c.pastEnd = false) {moves : Nat} (short : (walk step moves c).2.length ≤ moves) :
    Walks step c (walk step moves c).2 (walk step moves c).1 := by
  have at_c : c.here = [c.address] := by simp [here, inside]
  induction moves generalizing c with
  | zero => simp [walk] at short
  | succ moves ih =>
    unfold walk at short ⊢
    cases stepped : step c with
    | mk after more =>
      cases more with
      | false =>
        rw [← at_c]
        exact .stop stepped
      | true =>
        have inside' := entered stepped
        simp only [stepped, List.length_cons, Nat.add_le_add_iff_right] at short ⊢
        have rest := ih inside' short (by simp [here, inside'])
        have moved := Walks.move stepped rest
        rwa [at_c] at moved

variable {s : Space} {settings : ListingSettings} {a u v p : Word} {unit : ListingUnit}

theorem next_inside {c after : ListingCursor} (moved : c.next s = (after, true)) :
    after.pastEnd = false := by
  unfold next at moved
  split at moved
  · cases (Prod.mk.inj moved).2
  · split at moved
    · rw [← (Prod.mk.inj moved).1]
      rfl
    · cases (Prod.mk.inj moved).2

/-- The units from one on, to the last of the space. -/
inductive Onward (s : Space) (settings : ListingSettings) : Word → List Word → Prop where
  | last {u : Word} {unit : ListingUnit} (shown : Listing.unitAt? s settings u = some unit)
      (nothing : Listing.nextValid? s unit.stop = none) : Onward s settings u [u]
  | more {u v : Word} {unit : ListingUnit} {units : List Word}
      (shown : Listing.unitAt? s settings u = some unit)
      (after : Listing.nextValid? s unit.stop = some v) (onward : Onward s settings v units) :
      Onward s settings u (u :: units)

theorem onward_exists (listable : s.Listable) (reached : s.Reached settings u) :
    ∃ units, Onward s settings u units := by
  induction gap : s.stop.toNat - u.toNat using Nat.strongRecOn generalizing u with
  | ind gap ih =>
    have sits := listable.reached_sits reached
    obtain ⟨unit, shown, -, further, -⟩ := listable.unitAt?_sits settings sits
    cases after : Listing.nextValid? s unit.stop with
    | none => exact ⟨[u], .last shown after⟩
    | some v =>
      have behind := (listable.placed.nextValid?_eq_some after).1
      have := UInt64.lt_iff_toNat_lt.1 (Std.lt_of_lt_of_le further behind)
      have := UInt64.lt_iff_toNat_lt.1 (Space.lt_stop sits.valid)
      obtain ⟨units, onward⟩ := ih (s.stop.toNat - v.toNat) (by omega)
        (reached.next shown after) rfl
      exact ⟨u :: units, .more shown after onward⟩

theorem mem_onward_iff (listable : s.Listable) (onward : Onward s settings u units)
    (reached : s.Reached settings u) {w : Word} :
    w ∈ units ↔ s.Reached settings w ∧ u ≤ w := by
  induction onward with
  | @last u unit shown nothing =>
    rw [List.mem_singleton]
    constructor
    · rintro rfl
      exact ⟨reached, Std.le_refl _⟩
    · rintro ⟨later, reaches⟩
      by_contra other
      have apart := listable.reached_apart reached later
        (Std.lt_of_le_of_ne reaches (Ne.symm other)) shown
      have below := listable.placed.nextValid?_eq_none nothing (listable.reached_sits later).valid
      exact Std.not_le_of_gt below apart
  | @more u v unit units shown after onward ih =>
    have further := (listable.unit_fits (listable.reached_sits reached) shown).2.1
    obtain ⟨behind, -, nearest⟩ := listable.placed.nextValid?_eq_some after
    have before : u < v := Std.lt_of_lt_of_le further behind
    rw [List.mem_cons, ih (reached.next shown after)]
    constructor
    · rintro (rfl | ⟨later, reaches⟩)
      · exact ⟨reached, Std.le_refl _⟩
      · exact ⟨later, Std.le_trans (Std.le_of_lt before) reaches⟩
    · rintro ⟨later, reaches⟩
      by_cases same : w = u
      · exact .inl same
      · have apart := listable.reached_apart reached later
          (Std.lt_of_le_of_ne reaches (Ne.symm same)) shown
        exact .inr ⟨later, nearest w apart (listable.reached_sits later).valid⟩

/-- A cursor goes back to the unit behind which there is nothing valid up to the cursor. -/
theorem previous_eq (listable : s.Listable) (same : c.settings = settings)
    (within : c.front s ≤ s.stop) (reached : s.Reached settings u)
    (shown : Listing.unitAt? s settings u = some unit) (above : u < c.front s)
    (near : ∀ p, s.isValid p = true → p < c.front s → p < unit.stop) :
    c.previous s = (ofUnit settings unit, true) := by
  have greatest := Space.previousValid?_greatest listable.map within
  have valid := (listable.reached_sits reached).valid
  cases below : Listing.previousValid? s (c.front s) with
  | none =>
    rw [below] at greatest
    exact absurd ⟨above, valid⟩ (greatest u)
  | some p =>
    rw [below] at greatest
    obtain ⟨⟨before, p_valid⟩, nearest⟩ := greatest
    obtain ⟨u', found, reached', holds'⟩ := listable.unitStart?_reached settings p_valid
    have holds : s.Holds settings u p :=
      ⟨unit, shown, nearest u ⟨above, valid⟩, near p p_valid before⟩
    have here := listable.reached_unique reached reached' holds holds'
    subst here same
    simp [previous, below, found, shown, enter, ofUnit]

theorem previous_none (listable : s.Listable) (within : c.front s ≤ s.stop)
    (nothing : ∀ p, s.isValid p = true → c.front s ≤ p) : c.previous s = (c, false) := by
  have missing : Listing.previousValid? s (c.front s) = none :=
    (Space.previousValid?_greatest listable.map within).eq_none fun p wanted =>
      Std.not_le_of_gt wanted.1 (nothing p wanted.2)
  simp [previous, missing]

theorem next_eq (after : Listing.nextValid? s unit.stop = some v) {unit' : ListingUnit}
    (shown : Listing.unitAt? s settings v = some unit') :
    (ofUnit settings unit).next s = (ofUnit settings unit', true) := by
  simp [next, ofUnit, after, shown, enter]

theorem next_last (nothing : Listing.nextValid? s unit.stop = none) :
    (ofUnit settings unit).next s = ((ofUnit settings unit).leave unit.stop, false) := by
  simp [next, ofUnit, nothing]

theorem seek_eq (listable : s.Listable) (same : c.settings = settings)
    (valid : s.isValid a = true) :
    ∃ u unit, s.Reached settings u ∧ Listing.unitAt? s settings u = some unit ∧ unit.start = u ∧
      u ≤ a ∧ a < unit.stop ∧ c.seek s a = ofUnit settings unit := by
  obtain ⟨u, found, reached, unit, shown, below, inside⟩ :=
    listable.unitStart?_reached settings valid
  have start := (listable.unit_fits (listable.reached_sits reached) shown).1
  refine ⟨u, unit, reached, shown, start, below, inside, ?_⟩
  subst same
  simp [seek, valid, found, shown, enter, ofUnit]

theorem onward_walks (listable : s.Listable) (onward : Onward s settings u units)
    (reached : s.Reached settings u) (shown : Listing.unitAt? s settings u = some unit) :
    ∃ last, Walks (·.next s) (ofUnit settings unit) units last ∧ last.settings = settings ∧
      last.pastEnd = true := by
  have start := (listable.unit_fits (listable.reached_sits reached) shown).1
  induction onward generalizing unit with
  | last shown' nothing =>
    obtain rfl := Option.some.inj (shown.symm.trans shown')
    rw [← start]
    exact ⟨_, .stop (next_last nothing), rfl, rfl⟩
  | more shown' after onward ih =>
    obtain rfl := Option.some.inj (shown.symm.trans shown')
    have later := reached.next shown after
    obtain ⟨unit', further, start', -⟩ :=
      listable.unitAt?_sits settings (listable.reached_sits later)
    obtain ⟨last, walks, same, left⟩ := ih later further start'
    rw [← start]
    exact ⟨last, .move (next_eq after further) walks, same, left⟩

/-- Going back from behind a unit comes through it, and then to the units before it. -/
theorem onward_walks_back (listable : s.Listable) (onward : Onward s settings u units)
    (reached : s.Reached settings u) (shown : Listing.unitAt? s settings u = some unit)
    {before : List Word} {first : ListingCursor}
    (walks : Walks (·.previous s) (ofUnit settings unit) (u :: before) first)
    (same : c.settings = settings) (left : c.pastEnd = true) :
    Walks (·.previous s) c (units.reverse ++ before) first := by
  induction onward generalizing unit before with
  | last shown' nothing =>
    obtain rfl := Option.some.inj (shown.symm.trans shown')
    have front : c.front s = s.stop := by simp [front, left]
    have none_here : c.here = [] := by simp [here, left]
    have below := Space.lt_stop (listable.reached_sits reached).valid
    have back := previous_eq listable same (Std.le_of_eq front) reached shown (front ▸ below)
      fun p valid _ => listable.placed.nextValid?_eq_none nothing valid
    simpa [none_here] using Walks.move back walks
  | @more u v _ units shown' after onward ih =>
    obtain rfl := Option.some.inj (shown.symm.trans shown')
    have later := reached.next shown after
    have sits := listable.reached_sits later
    obtain ⟨behind, valid, nearest⟩ := listable.placed.nextValid?_eq_some after
    obtain ⟨unit', further, start', -⟩ := listable.unitAt?_sits settings sits
    have front : (ofUnit settings unit').front s = v := start'
    have onward' := (listable.unit_fits (listable.reached_sits reached) shown).2.1
    have back : (ofUnit settings unit').previous s = (ofUnit settings unit, true) := by
      refine previous_eq listable rfl ?_ reached shown ?_ fun p p_valid below => ?_
      · rw [front]
        exact Std.le_of_lt (Space.lt_stop valid)
      · rw [front]
        exact Std.lt_of_lt_of_le onward' behind
      · rw [front] at below
        by_contra passed
        exact Std.not_le_of_gt below (nearest p (Std.not_lt.1 passed) p_valid)
    have met : Walks (·.previous s) (ofUnit settings unit') (v :: u :: before) first := by
      have moved := Walks.move back walks
      rwa [show (ofUnit settings unit').here = [v] from start' ▸ rfl] at moved
    simpa using ih later further met

theorem ofStart_eq (listable : s.Listable) (settings : ListingSettings)
    (valid : s.isValid s.start = true) :
    ∃ unit, Listing.unitAt? s settings s.start = some unit ∧ unit.start = s.start ∧
      ofStart s settings = ofUnit settings unit := by
  obtain ⟨u, unit, reached, shown, start, below, -, found⟩ :=
    seek_eq (c := ⟨settings, s.start, s.start, [], false⟩) listable rfl valid
  have first := (Space.start_least listable.map (listable.reached_sits reached).valid).2
  obtain rfl := Std.le_antisymm below first
  exact ⟨unit, shown, start, found⟩

theorem ofStart_left (listable : s.Listable) (settings : ListingSettings)
    (nothing : ∀ a, s.isValid a = false) :
    (ofStart s settings).pastEnd = true ∧ (ofStart s settings).settings = settings := by
  have missing : Listing.nextValid? s s.start = none :=
    (Space.nextValid?_least listable.map s.start).eq_none fun b wanted => by
      simp [nothing b] at wanted
  simp [ofStart, reset, seek, nothing, missing, leave]

theorem previous_walks_first (listable : s.Listable) (settings : ListingSettings)
    (valid : s.isValid s.start = true)
    (start : unit.start = s.start) :
    Walks (·.previous s) (ofUnit settings unit) [s.start] (ofUnit settings unit) := by
  have front : (ofUnit settings unit).front s = s.start := start
  have here : (ofUnit settings unit).here = [s.start] := start ▸ rfl
  rw [← here]
  refine .stop (previous_none listable ?_ fun p mapped => ?_)
  · rw [front]
    exact Std.le_of_lt (Space.lt_stop valid)
  · rw [front]
    exact (Space.start_least listable.map mapped).2

/-- A search for a valid address ends at the one unit that holds it. -/
theorem seek_holds_iff (listable : s.Listable) (onward : Onward s settings s.start units)
    (reached : s.Reached settings s.start) (same : c.settings = settings)
    (valid : s.isValid a = true) :
    (c.seek s a).pastEnd = false ∧
      ∀ u, u ∈ units ∧ s.Holds settings u a ↔ u = (c.seek s a).address := by
  obtain ⟨u, unit, found, shown, start, below, inside, lands⟩ := seek_eq listable same valid
  have holds : s.Holds settings u a := ⟨unit, shown, below, inside⟩
  have address : (c.seek s a).address = u := by rw [lands, ← start]; rfl
  refine ⟨by rw [lands]; rfl, fun w => ?_⟩
  rw [address, mem_onward_iff listable onward reached]
  constructor
  · rintro ⟨⟨other, -⟩, holds'⟩
    exact listable.reached_unique found other holds holds'
  · rintro rfl
    have first := (Space.start_least listable.map (listable.reached_sits found).valid).2
    exact ⟨⟨found, first⟩, holds⟩

/-- Where nothing is valid there is nothing to meet. -/
theorem walks_nothing (listable : s.Listable) (nothing : ∀ a, s.isValid a = false)
    (left : c.pastEnd = true) :
    Walks (·.next s) c [] c ∧ Walks (·.previous s) c [] c := by
  have front : c.front s = s.stop := by simp [front, left]
  rw [show [] = c.here by simp [here, left]]
  constructor
  · exact .stop (by simp [next, left])
  · refine .stop (previous_none listable (Std.le_of_eq front) fun p mapped => ?_)
    rw [nothing p] at mapped
    cases mapped

/-- One list of units is met forward from the start and, in reverse, backward from the end. A search
for a valid address ends at the one unit of the list that holds it. -/
def WalksAgree (s : Space) (settings : ListingSettings) : Prop :=
  ∃ units last, Walks (·.next s) (ofStart s settings) units last ∧
    last.settings = settings ∧ last.pastEnd = true ∧
    (∀ c : ListingCursor, c.settings = settings → c.pastEnd = true →
      ∃ first, Walks (·.previous s) c units.reverse first) ∧
    ∀ (c : ListingCursor) (a : Word), c.settings = settings → s.isValid a = true →
      (c.seek s a).pastEnd = false ∧
        ∀ u, u ∈ units ∧ s.Holds settings u a ↔ u = (c.seek s a).address

/-- Rows of four bytes in two segments, one within the other, with a variable and with a block that
two functions share. -/
def listedSpace : Space where
  backend := .mapped ""
  storage := .inMemory [1, 2, 3, 4, 5, 6, 7, 8]
  map := .nestedMap
  metadata := { Metadata.empty with
    dataVariables := .insert .empty 0x11 ⟨0x11, .integer 2 false, true⟩ }
  functions :=
    ⟨.insert (.insert .empty 0x16 ⟨0x16, "first", true, [⟨0x16, 0x19, []⟩], false, []⟩)
      0x17 ⟨0x17, "second", true, [⟨0x16, 0x19, []⟩], false, []⟩, .empty, []⟩
  undoLog := .empty
  scheduler := .initial
  architecture := some Toy.little
  config := {}
  parentView := none
  bulk := ⟨0, []⟩
  idsMade := 0

def fourBytes : ListingSettings := ⟨4, true, true, 0⟩

theorem listedSpace_isValid_iff : listedSpace.isValid a = true ↔ 0x10 ≤ a ∧ a < 0x1c := by
  show SegmentMap.nestedMap.isValid a = true ↔ _
  rw [SegmentMap.isValid_iff (SegmentMap.built_sound SegmentMap.nestedMap_built).spaced]
  simp [SegmentMap.allSegments, SegmentMap.nestedMap, Table.values, Table.insert, Table.place,
    Table.empty, Segment.start, Segment.stop]
  grind

theorem listedSpace_readable (valid : listedSpace.isValid a = true) : listedSpace.Readable a := by
  obtain ⟨from_start, to_stop⟩ := listedSpace_isValid_iff.1 valid
  refine Space.readable_of_byte (fun access => Medium.noConfusion) ?_
  have each : ∀ i : Fin 12, listedSpace.read (0x10 + .ofNat i) 1 ≠ [] := by decide +kernel
  have low := UInt64.le_iff_toNat_le.1 from_start
  have high := UInt64.lt_iff_toNat_lt.1 to_stop
  have lowest : (0x10 : Word).toNat = 16 := rfl
  have highest : (0x1c : Word).toNat = 28 := rfl
  have place : (0x10 : Word) + .ofNat (a.toNat - 16) = a := by
    rw [← UInt64.toNat_inj, Word.toNat_add_ofNat (by omega)]
    omega
  rw [← place]
  exact each ⟨a.toNat - 16, by omega⟩

theorem listedSpace_variables {v : DataVariable}
    (member : v ∈ listedSpace.metadata.dataVariables.values) :
    v = ⟨0x11, .integer 2 false, true⟩ :=
  List.mem_singleton.1 member

theorem listedSpace_blocks {b : BasicBlock} (member : b ∈ listedSpace.functions.allBlocks) :
    b = ⟨0x16, 0x19, []⟩ := by
  have member : b ∈ [(⟨0x16, 0x19, []⟩ : BasicBlock), ⟨0x16, 0x19, []⟩] := member
  simpa using member

theorem listedSpace_listable : listedSpace.Listable where
  map := SegmentMap.built_sound SegmentMap.nestedMap_built
  filed held := by
    rcases Table.get?_insert_eq_some_iff.1 held with ⟨rfl, rfl⟩ | ⟨-, held⟩
    · rfl
    · simp at held
  readable := listedSpace_readable
  variableMapped {v a} member inside := by
    rw [listedSpace_variables member, AddressRange.contains_iff] at inside
    have inside : 0x11 ≤ a ∧ a < 0x13 := inside
    rw [listedSpace_isValid_iff]
    grind
  blockMapped {b a} member inside := by
    rw [listedSpace_blocks member] at inside
    simp only [BasicBlock.contains, Bool.and_eq_true, decide_eq_true_eq] at inside
    rw [listedSpace_isValid_iff]
    grind
  variablesApart member member' _ _ :=
    (listedSpace_variables member').trans (listedSpace_variables member).symm
  blocksApart member member' _ _ := by
    rw [listedSpace_blocks member, listedSpace_blocks member']
    exact ⟨rfl, rfl⟩
  kindsApart {v b a} member member' inside := by
    rw [listedSpace_variables member, AddressRange.contains_iff] at inside
    have inside : 0x11 ≤ a ∧ a < 0x13 := inside
    rw [listedSpace_blocks member']
    simp only [BasicBlock.contains, Bool.and_eq_false_iff, decide_eq_false_iff_not]
    grind
  decodes known bytes a := by
    obtain rfl := Option.some.inj known
    exact Toy.length_decode_le .little bytes a

/-- A snapshot of eight bytes, with any tables. -/
def writtenSnapshot (viewType : String) (segments : List Segment)
    (placed : Table Word DataVariable) : Snapshot where
  savedAt := ⟨0, 0⟩
  viewType := viewType
  architecture := none
  config := {}
  segments := segments
  sections := []
  metadata := { Metadata.empty with dataVariables := placed }
  userFunctions := []
  entryPoints := []
  contents := [1, 2, 3, 4, 5, 6, 7, 8]
  modifications := []

def writtenSpace (backend : Backend) (map : SegmentMap) (placed : Table Word DataVariable)
    (parentView : Option String) : Space where
  backend := backend
  storage := ⟨.memory, [1, 2, 3, 4, 5, 6, 7, 8], .ofRuns []⟩
  map := map
  metadata := { Metadata.empty with dataVariables := placed }
  functions := .empty
  undoLog := .empty
  scheduler := .initial
  architecture := none
  config := {}
  parentView := parentView
  bulk := ⟨0, []⟩
  idsMade := 0

theorem writtenSpace_legible {backend : Backend} {map : SegmentMap}
    {placed : Table Word DataVariable} {parentView : Option String}
    (within : ∀ {a}, (writtenSpace backend map placed parentView).isValid a = true → a < 8)
    (byte : ∀ i : Fin 8, (writtenSpace backend map placed parentView).isValid (.ofNat i) = true →
      (writtenSpace backend map placed parentView).read (.ofNat i) 1 ≠ [])
    (mapped : ∀ {v a}, v ∈ placed.values → v.range.contains a = true →
      (writtenSpace backend map placed parentView).isValid a = true)
    (single : ∀ {v w}, v ∈ placed.values → w ∈ placed.values → w = v) :
    (writtenSpace backend map placed parentView).Legible where
  readable {a} valid := by
    have place : UInt64.ofNat a.toNat = a := UInt64.ofNat_toNat
    have small := byte ⟨a.toNat, UInt64.lt_iff_toNat_lt.1 (within valid)⟩
    rw [place] at small
    exact Space.readable_of_byte (fun access => Medium.noConfusion) (small valid)
  variableMapped := mapped
  blockMapped member := nomatch member
  variablesApart member member' _ _ := single member member'
  blocksApart member := nomatch member
  kindsApart _ member := nomatch member
  decodes known := nomatch known

/-- The variable at 2 is filed under 0. -/
def misfiledVariables : Table Word DataVariable := .insert .empty 0 ⟨2, .integer 2 false, false⟩

def misfiledSpace : Space := writtenSpace .raw .empty misfiledVariables none

def reversedSegment : Segment := ⟨1, ⟨4, 1⟩, 0, 0, .ofBits 7, true, []⟩

def hiddenSegment : Segment := ⟨2, ⟨1, 8⟩, 0, 7, .ofBits 7, true, []⟩

/-- A segment that ends before it begins hides the last part of another one. -/
def reversedSpace : Space :=
  writtenSpace (.mapped "")
    ⟨.insert (.insert .empty 4 reversedSegment) 1 hiddenSegment, .empty, .empty, .empty, 2⟩ .empty
    (some "Raw")

theorem misfiledSpace_reachable : misfiledSpace.Reachable :=
  .restored (show (writtenSnapshot "Raw" [] misfiledVariables).restore .standard = .ok misfiledSpace
    from rfl) fun _ => ⟨by decide, by decide⟩

theorem reversedSpace_reachable : reversedSpace.Reachable :=
  .restored (show (writtenSnapshot "Mapped" [reversedSegment, hiddenSegment] .empty).restore
    .standard = .ok reversedSpace from rfl) fun _ => ⟨by decide, by decide⟩

theorem misfiledSpace_legible : misfiledSpace.Legible := by
  have stored (a : Word) : misfiledSpace.isValid a = true ↔ a < 8 := Space.isValid_raw rfl a
  have only {v : DataVariable} (member : v ∈ misfiledVariables.values) :
      v = ⟨2, .integer 2 false, false⟩ := List.mem_singleton.1 member
  refine writtenSpace_legible (stored _).1 (by decide) (fun {v a} member inside => ?_)
    fun member member' => (only member').trans (only member).symm
  rw [only member, AddressRange.contains_iff] at inside
  have inside : 2 ≤ a ∧ a < 4 := inside
  exact (stored a).2 (by grind)

theorem reversedSpace_legible : reversedSpace.Legible := by
  refine writtenSpace_legible (fun {a} valid => ?_) (by decide +kernel) (fun member => ?_)
    fun member => ?_
  · obtain ⟨s, found⟩ := Option.isSome_iff_exists.1 valid
    obtain ⟨member, -, below⟩ := SegmentMap.mem_of_at? found
    have member : s ∈ [hiddenSegment, reversedSegment] := member
    have ends : s.stop ≤ 8 := by
      rcases List.mem_pair.1 member with rfl | rfl <;> decide
    exact Std.lt_of_lt_of_le below ends
  · exact nomatch member
  · exact nomatch member

theorem reversedSpace_previousValid? :
    Listing.previousValid? reversedSpace reversedSpace.stop = none := by
  have segments : reversedSpace.map.segments = reversedSpace.map.allSegments :=
    List.mergeSort_of_pairwise (by decide)
  rw [Listing.previousValid?, segments]
  decide

end ListingCursor

end BinaryAtlas
