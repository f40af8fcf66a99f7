import BinaryAtlas.Proofs.Analysis.Repeating
import BinaryAtlas.Proofs.SegmentMap.Backing

/-!
Which string an address is in. Only the last string that begins at the address or before is looked
at, which is enough as long as no string ends inside another one: the strings of one scan do not if
they have two characters or more, those of segments that lie one over the other may.
-/

set_option autoImplicit false

namespace BinaryAtlas

namespace StringScan

section Places

variable {bytes : List UInt8} {kind kind' : StringKind} {least most i j count c : Nat}

theorem TextAt.nonzero (text : TextAt bytes .ascii i) : bytes[i]? ≠ some 0 := by
  obtain ⟨b, held, isText⟩ := text
  rintro zero
  rw [held, Option.some.injEq] at zero
  rw [zero] at isText
  exact absurd isText (by decide)

/-- The first byte of a wide character is one of text, the second one is zero. -/
theorem TextAt.narrow (text : TextAt bytes .utf16 i) :
    TextAt bytes .ascii i ∧ bytes[i + 1]? = some 0 := by
  obtain ⟨low, high, held, held', unit⟩ := text
  simp only [isTextUnit, Bool.and_eq_true, beq_iff_eq] at unit
  exact ⟨⟨low, held, unit.2⟩, by rw [held', unit.1]⟩

/-- What stands inside a string of wide characters. -/
theorem Stands.inside (stands : Stands bytes least most .utf16 i count) (behind : i ≤ j)
    (within : j < i + count * 2) :
    (j - i) % 2 = 0 ∧ TextAt bytes .utf16 j ∨ (j - i) % 2 = 1 ∧ bytes[j]? = some 0 := by
  obtain ⟨n, run, -, rfl⟩ := stands
  have text := run.inside ((j - i) / 2) (by omega)
  simp only [StringKind.unitSize] at text
  rcases Nat.mod_two_eq_zero_or_one (j - i) with even | odd
  · exact .inl ⟨even, by rwa [show i + (j - i) / 2 * 2 = j by omega] at text⟩
  · exact .inr ⟨odd, by rw [← text.narrow.2]; congr 1; omega⟩

/-- A string that begins inside another one reaches as far as that, or further. -/
theorem Stands.reaches (long : 2 ≤ least) (enough : least ≤ most)
    (stands : Stands bytes least most kind i count)
    (later : Stands bytes least most kind' j c) (behind : i < j)
    (inside : j < i + count * kind.unitSize) :
    i + count * kind.unitSize ≤ j + c * kind'.unitSize := by
  obtain ⟨m, run', long', rfl⟩ := later
  have begins := run'.inside 0 run'.nonempty
  have starts := run'.starts
  rw [Nat.zero_mul, Nat.add_zero] at begins
  cases kind with
  | ascii =>
    obtain ⟨n, run, -, rfl⟩ := stands
    simp only [StringKind.unitSize, Nat.mul_one] at inside run ⊢
    cases kind' with
    | ascii =>
      simp only [StringKind.unitSize] at starts
      have before := run.inside (j - 1 - i) (by omega)
      rw [show i + (j - 1 - i) * 1 = j - 1 by omega] at before
      exact starts.elim (by omega) fun apart => absurd before apart
    | utf16 =>
      -- The zero of the first wide character ends the narrow ones.
      have short : n ≤ j + 1 - i := by
        refine Nat.le_of_not_lt fun further => ?_
        have text := run.inside (j + 1 - i) further
        rw [show i + (j + 1 - i) * 1 = j + 1 by omega] at text
        exact text.nonzero begins.narrow.2
      show i + min n most ≤ j + min m most * 2
      omega
    | utf32 => exact begins.elim
  | utf16 =>
    simp only [StringKind.unitSize] at inside ⊢
    cases kind' with
    | ascii =>
      have second := run'.inside 1 (by omega)
      rcases stands.inside (Nat.le_of_lt behind) inside with ⟨-, text⟩ | ⟨-, zero⟩
      · exact absurd text.narrow.2 second.nonzero
      · exact absurd zero begins.nonzero
    | utf16 =>
      rcases stands.inside (Nat.le_of_lt behind) inside with ⟨even, -⟩ | ⟨-, zero⟩
      · rcases stands.inside (j := j - 2) (by omega) (by omega) with ⟨-, text⟩ | ⟨odd, -⟩
        · simp only [StringKind.unitSize] at starts
          exact starts.elim (by omega) fun apart => absurd text apart
        · omega
      · exact absurd zero begins.narrow.1.nonzero
    | utf32 => exact begins.elim
  | utf32 =>
    obtain ⟨n, run, -⟩ := stands
    exact (run.inside 0 run.nonempty).elim

end Places

section Scan

variable {bytes : List UInt8} {base : Word} {least most : Nat} {s t : StringReference}

/-- Where a string stands that a scan shows. -/
theorem stands_of_mem_scan (room : base.toNat + bytes.length < 0x10000000000000000)
    (member : s ∈ scan bytes base least most) :
    ∃ i count, Stands bytes (max least 1) (max most (max least 1)) s.kind i count ∧
      s.start.toNat = base.toNat + i ∧
      s.stop.toNat = base.toNat + (i + count * s.kind.unitSize) := by
  obtain ⟨i, count, ⟨stands, -⟩, made⟩ := (mem_scan room).1 member
  have start := stands.toNat_start room
  have length := stands.toNat_length room
  have within := stands.within
  rw [← made] at start length
  refine ⟨i, count, stands, start, ?_⟩
  rw [StringReference.stop, UInt64.toNat_add, start, length, Nat.add_assoc,
    Nat.mod_eq_of_lt (by omega)]

/-- It lies within the bytes, and has some. -/
theorem scan_bounds (room : base.toNat + bytes.length < 0x10000000000000000)
    (member : s ∈ scan bytes base least most) :
    base.toNat ≤ s.start.toNat ∧ s.start < s.stop ∧
      s.stop.toNat ≤ base.toNat + bytes.length := by
  obtain ⟨i, count, stands, start, stop⟩ := stands_of_mem_scan room member
  have within := stands.within
  obtain ⟨n, run, long, count_eq⟩ := stands
  have some_ : 0 < count * s.kind.unitSize := by
    refine Nat.mul_pos (by omega) ?_
    cases s.kind <;> decide
  exact ⟨by omega, UInt64.lt_iff_toNat_lt.2 (by omega), by omega⟩

/-- Of the strings that a scan shows none ends inside another one, if they all have two characters
or more. -/
theorem scan_reaches (room : base.toNat + bytes.length < 0x10000000000000000) (long : 2 ≤ least)
    (member : s ∈ scan bytes base least most) (member' : t ∈ scan bytes base least most)
    (behind : s.start < t.start) (inside : t.start < s.stop) : s.stop ≤ t.stop := by
  obtain ⟨i, count, stands, start, stop⟩ := stands_of_mem_scan room member
  obtain ⟨j, c, later, start', stop'⟩ := stands_of_mem_scan room member'
  rw [UInt64.lt_iff_toNat_lt] at behind inside
  have reaches := stands.reaches (by omega) (by omega) later (by omega) (by omega)
  exact UInt64.le_iff_toNat_le.2 (by omega)

end Scan

end StringScan

namespace StringReference

theorem contains_iff {s : StringReference} {a : Word} :
    s.contains a = true ↔ s.start ≤ a ∧ a < s.stop := by
  simp [contains]

end StringReference

/-- Known strings are filed under their starts, which they contain. -/
def Anchored (known : Table Word StringReference) : Prop :=
  ∀ ⦃a string⦄, known.get? a = some string → string.start = a ∧ string.contains a = true

namespace SegmentMap

theorem inOrder_iff {s t : Segment} : inOrder s t = true ↔
    s.start.toNat < t.start.toNat ∨
      s.start.toNat = t.start.toNat ∧ (s.auto = false ∨ t.auto = true) := by
  simp [inOrder, UInt64.lt_iff_toNat_lt, ← UInt64.toNat_inj]

theorem segments_ordered (m : SegmentMap) : m.segments.Pairwise (inOrder · ·) := by
  refine List.pairwise_mergeSort (fun s t u first second => ?_) (fun s t => ?_) _
  · rw [inOrder_iff] at *
    rcases first with before | ⟨same, first⟩ <;> rcases second with before' | ⟨same', second⟩
    · exact .inl (by omega)
    · exact .inl (by omega)
    · exact .inl (by omega)
    · refine .inr ⟨by omega, ?_⟩
      rcases first with user | auto
      · exact .inl user
      · exact .inr (second.resolve_left (by simp [auto]))
  · rw [Bool.or_eq_true, inOrder_iff, inOrder_iff]
    rcases Nat.lt_trichotomy s.start.toNat t.start.toNat with before | same | behind
    · exact .inl (.inl before)
    · cases auto : s.auto with
      | false => exact .inl (.inr ⟨same, .inl rfl⟩)
      | true => exact .inr (.inr ⟨same.symm, .inr rfl⟩)
    · exact .inr (.inl behind)

end SegmentMap

namespace Space

variable {s : Space} {a : Word} {string : StringReference}

/-- Of the strings that begin at an address or before, the last one is found if it reaches the
address. -/
theorem stringAt?_eq_some_iff (anchored : Anchored s.metadata.strings) :
    s.stringAt? a true = some string ↔
      s.metadata.strings.get? string.start = some string ∧ string.contains a = true ∧
        ∀ b other, s.metadata.strings.get? b = some other → b ≤ a → b ≤ string.start := by
  unfold stringAt?
  cases held : s.metadata.strings.get? a with
  | some found =>
    obtain ⟨rfl, inside⟩ := anchored held
    constructor
    · rintro ⟨⟩
      exact ⟨held, inside, fun b _ _ before => before⟩
    · rintro ⟨known, contains, last⟩
      have same : string.start = found.start :=
        UInt64.le_antisymm (StringReference.contains_iff.1 contains).1
          (last _ found held (UInt64.le_refl _))
      rw [← known, same, held]
  | none =>
    -- Where no string begins, before and at the address mean the same.
    have strictly {b : Word} {other : StringReference}
        (known : s.metadata.strings.get? b = some other) (before : b ≤ a) : b < a := by
      refine UInt64.lt_of_le_of_ne before ?_
      rintro rfl
      rw [held] at known
      cases known
    have below : ((s.metadata.strings.below? a).map (·.2)).filter (·.contains a) = some string ↔
        s.metadata.strings.below? a = some (string.start, string) ∧ string.contains a = true := by
      rw [Option.filter_eq_some_iff, Option.map_eq_some_iff]
      refine and_congr_left fun _ => ⟨?_, fun last => ⟨_, last, rfl⟩⟩
      rintro ⟨⟨start, last⟩, found, rfl⟩
      rw [found, (anchored ((Table.below?_eq_some_iff ..).1 found).1).1]
    simp only [if_true]
    rw [below, Table.below?_eq_some_iff]
    constructor
    · rintro ⟨⟨known, -, last⟩, contains⟩
      exact ⟨known, contains, fun b other there before =>
        last b other there (strictly there before)⟩
    · rintro ⟨known, contains, last⟩
      have begins := (StringReference.contains_iff.1 contains).1
      exact ⟨⟨known, strictly known begins, fun b other there before =>
        last b other there (UInt64.le_of_lt before)⟩, contains⟩

/-- If no known string ends inside another one, every address inside of a string is found. -/
theorem stringAt?_isSome_iff (anchored : Anchored s.metadata.strings)
    (reaches : ∀ b c first second, s.metadata.strings.get? b = some first →
      s.metadata.strings.get? c = some second → b < c → c < first.stop →
        first.stop ≤ second.stop) :
    (s.stringAt? a true).isSome = true ↔
      ∃ string, s.metadata.strings.get? string.start = some string ∧ string.contains a = true := by
  constructor
  · intro found
    obtain ⟨string, found⟩ := Option.isSome_iff_exists.1 found
    obtain ⟨known, contains, -⟩ := (stringAt?_eq_some_iff anchored).1 found
    exact ⟨string, known, contains⟩
  · rintro ⟨string, known, contains⟩
    obtain ⟨begins, within⟩ := StringReference.contains_iff.1 contains
    obtain ⟨⟨key, last⟩, found⟩ :=
      Option.ne_none_iff_exists'.1 fun nothing =>
        (Table.atOrBelow?_eq_none_iff s.metadata.strings a).1 nothing _ _ known begins
    obtain ⟨held, before, greatest⟩ := (Table.atOrBelow?_eq_some_iff ..).1 found
    obtain ⟨rfl, -⟩ := anchored held
    have reached : a < last.stop := by
      rcases UInt64.lt_or_eq_of_le (greatest _ _ known begins) with behind | same
      · exact UInt64.lt_of_lt_of_le within
          (reaches _ _ _ _ known held behind (UInt64.lt_of_le_of_lt before within))
      · rw [same, held, Option.some.injEq] at known
        exact known ▸ within
    exact Option.isSome_iff_exists.2 ⟨last, (stringAt?_eq_some_iff anchored).2
      ⟨held, StringReference.contains_iff.2 ⟨before, reached⟩, greatest⟩⟩

/-- After the searches each known string was found by one of them, the last one to come to its
start, or is known from before and none of them came there. -/
theorem known_of_renewAll {sweeps : List Sweep} {known : Table Word StringReference}
    (filed : known.FiledBy (·.start))
    (held : (Sweep.renewAll sweeps known).1.get? a = some string) :
    (∃ w ∈ sweeps, w.range.contains a = true ∧ w.at? a = some string) ∨
      known.get? a = some string ∧ ∀ w ∈ sweeps, ¬ w.range.contains a = true := by
  rw [Sweep.get?_renewAll filed] at held
  cases last : (sweeps.filter (·.range.contains a)).getLast? with
  | some w =>
    rw [last] at held
    obtain ⟨member, inside⟩ := List.mem_filter.1 (List.mem_of_getLast? last)
    exact .inl ⟨w, member, inside, held⟩
  | none =>
    rw [last] at held
    exact .inr ⟨held, List.filter_eq_nil_iff.1 (List.getLast?_eq_none_iff.1 last)⟩

section Searched

variable {window : Word} (sound : s.map.Sound) (truthful : s.storage.Truthful)
  (ordered : s.config.analysis.minStringLength ≤ s.config.analysis.maxStringLength)
  (sized : windowSize? s.config = some window)

include sound truthful ordered sized

/-- The strings that a segment shows lie within it, and are those of one scan. -/
theorem found_in_segment {w : Sweep} (member : w ∈ s.sweeps sized s.map.segments) :
    (∀ string ∈ w.found, string.start < string.stop ∧
      ∀ b, string.start ≤ b → b < string.stop → w.range.contains b = true) ∧
    (2 ≤ s.config.analysis.minStringLength → ∀ first ∈ w.found, ∀ second ∈ w.found,
      first.start < second.start → second.start < first.stop → first.stop ≤ second.stop) := by
  obtain ⟨segment, searched, rfl⟩ := List.mem_map.1 member
  have held : segment ∈ s.map.allSegments := List.mem_mergeSort.1 (List.mem_filter.1 searched).1
  have forward := (sound.wellFormed held).ordered
  obtain ⟨room, within⟩ := stored_room forward
  -- What is searched are no more bytes than the segment stores.
  have stored := read_prefix sound truthful room
  have short := stored.bounded
  have scanned : (s.sweep sized segment).found = s.wholeStrings segment :=
    segmentStrings_scanned sound truthful forward ordered sized
  have room : segment.start.toNat +
      (s.read segment.start (min segment.dataLength segment.length).toNat).length <
        0x10000000000000000 := by omega
  rw [scanned]
  constructor
  · intro string member
    obtain ⟨behind, some_, before⟩ := StringScan.scan_bounds room member
    refine ⟨some_, fun b after inside => AddressRange.contains_iff.2 ⟨?_, ?_⟩⟩
    · exact UInt64.le_iff_toNat_le.2 (behind.trans (UInt64.le_iff_toNat_le.1 after))
    · have inside := UInt64.lt_iff_toNat_lt.1 inside
      refine UInt64.lt_iff_toNat_lt.2 ?_
      show _ < (Word.addCapped segment.start segment.length).toNat
      rw [Word.toNat_addCapped]
      omega
  · intro long first member second member' behind inside
    exact StringScan.scan_reaches room (UInt64.le_iff_toNat_le.1 long) member member' behind inside

/-- After analysis of all functions, strings are looked up as they should as far as the last one
that begins at the address or before is concerned. That one is enough if strings have two characters
or more, no two segments that are searched hold different ones anywhere and those known before are
all searched for again: an address has a string just if a known one contains it. -/
theorem analysed_strings_located (free : s.scheduler.held = false)
    (alive : s.scheduler.stopped = false) (anchored : Anchored s.metadata.strings) (fuel : Nat) :
    let after := s.reanalyzed (fuel + 1)
    let known := after.metadata.strings
    Anchored known ∧
      (∀ a string, after.stringAt? a true = some string ↔
        known.get? string.start = some string ∧ string.contains a = true ∧
          ∀ b other, known.get? b = some other → b ≤ a → b ≤ string.start) ∧
      (2 ≤ s.config.analysis.minStringLength → (∀ a, ¬ s.Contested a) →
        (∀ a string, s.metadata.strings.get? a = some string →
          ∃ t ∈ s.map.segments, holdsStrings t = true ∧
            (AddressRange.ofLength t.start t.length).contains a = true) →
        ∀ a, (after.stringAt? a true).isSome = true ↔
          ∃ string, known.get? string.start = some string ∧ string.contains a = true) := by
  intro after known
  have filed : s.metadata.strings.FiledBy (·.start) := fun _ _ held => (anchored held).1
  have known_eq : known = (Sweep.renewAll (s.sweeps sized s.map.segments) s.metadata.strings).1 :=
    (reanalyzed_explored sized free alive filed fuel).2.2.1
  have found {w : Sweep} (member : w ∈ s.sweeps sized s.map.segments) :=
    found_in_segment sound truthful ordered sized member
  have anchored' : Anchored known := by
    intro a string held
    rw [known_eq] at held
    rcases known_of_renewAll filed held with ⟨w, member, -, found_⟩ | ⟨held, -⟩
    · obtain ⟨shown, rfl⟩ := w.at?_eq_some_iff.1 found_
      exact ⟨rfl, StringReference.contains_iff.2
        ⟨UInt64.le_refl _, ((found member).1 string shown).1⟩⟩
    · exact anchored held
  refine ⟨anchored', fun a string => stringAt?_eq_some_iff anchored', ?_⟩
  intro long calm covered a
  -- Each known string was found by a search, as they come to wherever one was known before.
  have searched {a : Word} {string : StringReference} (held : known.get? a = some string) :
      ∃ w ∈ s.sweeps sized s.map.segments, w.range.contains a = true ∧ w.at? a = some string := by
    rw [known_eq] at held
    refine (known_of_renewAll filed held).resolve_right fun ⟨before, nobody⟩ => ?_
    obtain ⟨t, member, holds, inside⟩ := covered a string before
    exact nobody _ (List.mem_map_of_mem (List.mem_filter.2 ⟨member, holds⟩)) inside
  refine stringAt?_isSome_iff anchored' fun b c first second held held' behind inside => ?_
  obtain ⟨w, member, -, at_b⟩ := searched held
  obtain ⟨v, member', inside', at_c⟩ := searched held'
  obtain ⟨shown, rfl⟩ := w.at?_eq_some_iff.1 at_b
  have reached := ((found member).1 first shown).2 c (UInt64.le_of_lt behind) inside
  -- The one search comes to the other string as well, where it finds the same.
  have same : w.at? c = v.at? c := by
    by_contra differ
    exact calm c ((contested_iff sized c).2 ⟨w, member, v, member', reached, inside', differ⟩)
  obtain ⟨shown', rfl⟩ := w.at?_eq_some_iff.1 (same.trans at_c)
  exact (found member).2 long first shown second shown' behind inside

end Searched

theorem textSpace_uncontested (a : Word) : ¬ textSpace.Contested a := by
  rintro ⟨t, member, u, member', -, -, -, -, differ⟩
  have only {t : Segment} (member : t ∈ textSpace.map.segments) : t = textSegment := by
    have all : textSpace.map.allSegments = [textSegment] := rfl
    rwa [SegmentMap.segments, List.mem_mergeSort, all, List.mem_singleton] at member
  exact differ (by rw [only member, only member'])

theorem text_located :
    let after := textSpace.reanalyzed 1
    windowSize? textSpace.config = some 12 ∧ Anchored textSpace.metadata.strings ∧
      2 ≤ textSpace.config.analysis.minStringLength ∧ (∀ a, ¬ textSpace.Contested a) ∧
      ∀ a, (after.stringAt? a true).isSome = true ↔
        ∃ string, after.metadata.strings.get? string.start = some string ∧
          string.contains a = true := by
  have sized : windowSize? textSpace.config = some 12 := by decide
  have nothing : Anchored textSpace.metadata.strings := fun _ _ held => nomatch held
  obtain ⟨-, -, located⟩ := analysed_strings_located textSpace_sound (fun _ _ => rfl) (by decide)
    sized rfl rfl nothing 0
  exact ⟨sized, nothing, by decide, textSpace_uncontested,
    located (by decide) textSpace_uncontested fun _ _ held => nomatch held⟩

def coveringSegment : Segment := ⟨1, ⟨0x20, 0x2c⟩, 0, 12, .ofBits 4, true, []⟩

/-- Over four of its characters. -/
def coveredSegment : Segment := ⟨2, ⟨0x24, 0x28⟩, 4, 4, .ofBits 4, false, []⟩

def coveredTextSnapshot : Snapshot :=
  { ListingCursor.writtenSnapshot "Mapped" [coveringSegment, coveredSegment] .empty with
    contents := [0x54, 0x45, 0x58, 0x54, 0x54, 0x45, 0x58, 0x54, 0x54, 0x45, 0x58, 0x54] }

/-- A text of twelve characters, with a segment of a user's over the four in the middle. -/
def coveredTextSpace : Space :=
  { ListingCursor.reversedSpace with
    storage := ⟨.memory, coveredTextSnapshot.contents, .ofRuns []⟩
    map := ⟨.insert .empty 0x20 coveringSegment, .insert .empty 0x24 coveredSegment, .empty,
      .empty, 2⟩ }

theorem coveredTextSpace_reachable : coveredTextSpace.Reachable :=
  .restored (show coveredTextSnapshot.restore .standard = .ok coveredTextSpace from rfl)
    fun _ => ⟨by decide, by decide⟩

theorem coveredTextSpace_sound : coveredTextSpace.map.Sound := by
  have whole : Segment.ofLayout 0x20 12 0 12 (.ofBits 4) true =
      .ok ⟨0, ⟨0x20, 0x2c⟩, 0, 12, .ofBits 4, true, []⟩ := rfl
  have middle : Segment.ofLayout 0x24 4 4 4 (.ofBits 4) false =
      .ok ⟨0, ⟨0x24, 0x28⟩, 4, 4, .ofBits 4, false, []⟩ := rfl
  exact SegmentMap.built_sound (.add (.add .empty whole rfl) middle rfl)

theorem coveredTextSpace_segments :
    coveredTextSpace.map.segments = [coveringSegment, coveredSegment] := by
  have same : coveredTextSpace.map.segments.Perm [coveringSegment, coveredSegment] :=
    (List.mergeSort_perm _ _).trans (.swap ..)
  refine List.Perm.eq_of_pairwise (fun t u member member' first second => ?_)
    (SegmentMap.segments_ordered _) (by decide) same
  have member := same.mem_iff.1 member
  rw [List.mem_pair] at member member'
  rcases member with rfl | rfl <;> rcases member' with rfl | rfl
  · rfl
  · cases second
  · cases first
  · rfl

theorem coveredTextSpace_strings :
    coveredTextSpace.segmentStrings coveringSegment = [⟨.ascii, 0x20, 12⟩] ∧
      coveredTextSpace.segmentStrings coveredSegment = [⟨.ascii, 0x24, 4⟩] := by
  have sized : windowSize? coveredTextSpace.config = some 0x10000 := by decide
  have scanned {segment : Segment} (forward : segment.start ≤ segment.stop) :
      coveredTextSpace.segmentStrings segment = coveredTextSpace.wholeStrings segment :=
    segmentStrings_scanned coveredTextSpace_sound (fun _ _ => rfl) forward (by decide) sized
  constructor
  · exact (scanned (by decide)).trans (StringScan.scan_of_ascending (by decide +kernel) (by decide))
  · exact (scanned (by decide)).trans (StringScan.scan_of_ascending (by decide +kernel) (by decide))

/-- In the middle the user's segment has its way. -/
theorem coveredTextSpace_known (a : Word) :
    (coveredTextSpace.reanalyzed 1).metadata.strings.get? a =
      if (AddressRange.ofLength 0x24 4).contains a then
        [(⟨.ascii, 0x24, 4⟩ : StringReference)].find? (·.start == a)
      else if (AddressRange.ofLength 0x20 12).contains a then
        [(⟨.ascii, 0x20, 12⟩ : StringReference)].find? (·.start == a)
      else none := by
  have sized : windowSize? coveredTextSpace.config = some 0x10000 := by decide
  have filed : coveredTextSpace.metadata.strings.FiledBy (·.start) := fun _ _ held => nomatch held
  obtain ⟨-, -, strings, -⟩ := reanalyzed_explored sized rfl rfl filed 0
  obtain ⟨covering, covered⟩ := coveredTextSpace_strings
  have searched : coveredTextSpace.sweeps sized coveredTextSpace.map.segments =
      [coveringSegment, coveredSegment].map (coveredTextSpace.sweep sized) := by
    rw [coveredTextSpace_segments]
    rfl
  rw [strings, Sweep.get?_renewAll filed, searched, List.map_cons, List.map_cons,
    List.map_nil, List.filter_cons, List.filter_cons, List.filter_nil]
  have ranges : (coveredTextSpace.sweep sized coveringSegment).range = .ofLength 0x20 12 ∧
      (coveredTextSpace.sweep sized coveredSegment).range = .ofLength 0x24 4 := ⟨rfl, rfl⟩
  rw [ranges.1, ranges.2, ← covering, ← covered]
  cases (AddressRange.ofLength 0x20 12).contains a <;>
    cases (AddressRange.ofLength 0x24 4).contains a <;> rfl

/-- The string in the middle ends in front of the address, so the one around it is not found. -/
theorem covering_text_missed :
    let after := coveredTextSpace.reanalyzed 1
    let text : StringReference := ⟨.ascii, 0x20, 12⟩
    coveredTextSpace.Reachable ∧ coveredTextSpace.metadata.strings = .empty ∧
      coveredTextSpace.scheduler.held = false ∧ coveredTextSpace.scheduler.stopped = false ∧
      after.metadata.strings.get? 0x20 = some text ∧ text.contains 0x2a = true ∧
      after.stringAt? 0x2a true = none := by
  intro after text
  have known (a : Word) : after.metadata.strings.get? a = _ := coveredTextSpace_known a
  have none_there : after.metadata.strings.get? 0x2a = none := by
    rw [known]
    decide
  have last : after.metadata.strings.below? 0x2a = some (0x24, ⟨.ascii, 0x24, 4⟩) := by
    refine (Table.below?_eq_some_iff ..).2 ⟨?_, by decide, fun b other held before => ?_⟩
    · rw [known]
      decide
    · -- Only two addresses have a string.
      have begins {string : StringReference} (found : [string].find? (·.start == b) = some other) :
          b = string.start := by
        obtain rfl := List.mem_singleton.1 (List.mem_of_find?_eq_some found)
        have same := List.find?_some found
        exact (eq_of_beq same).symm
      rw [known] at held
      split at held
      · exact begins held ▸ UInt64.le_refl _
      · split at held
        · exact begins held ▸ (by decide)
        · cases held
  refine ⟨coveredTextSpace_reachable, rfl, rfl, rfl, ?_, by decide, ?_⟩
  · rw [known]
    decide
  · unfold stringAt?
    rw [none_there, last]
    decide

end Space

end BinaryAtlas
