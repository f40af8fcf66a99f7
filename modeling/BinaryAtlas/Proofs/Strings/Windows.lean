import BinaryAtlas.Analysis.Pass
import BinaryAtlas.Proofs.Listing.Walking
import BinaryAtlas.Proofs.Search.Places
import BinaryAtlas.Proofs.Strings.Runs
import Mathlib.Data.List.Sort

/-!
Looking for strings window by window. What a window shows of its own part is what the whole shows
there: two bytes in front of it tell whether a run begins, and what follows it is longer than what
counts of a run.
-/

set_option autoImplicit false

namespace BinaryAtlas

namespace StringScan

section Window

variable {bytes : List UInt8} {base : Word} {kind : StringKind}
  {origin length least most i count : Nat}

theorem textAt_window : TextAt ((bytes.drop origin).take length) kind i ↔
    TextAt bytes kind (origin + i) ∧ i + kind.unitSize ≤ length := by
  cases kind with
  | ascii =>
    simp only [TextAt, StringKind.unitSize, List.getElem?_take, List.getElem?_drop]
    split <;> simp <;> omega
  | utf16 =>
    simp only [TextAt, StringKind.unitSize, List.getElem?_take, List.getElem?_drop]
    by_cases inside : i + 2 ≤ length
    · simp [inside, Nat.add_assoc, show i < length by omega, show i + 1 < length by omega]
    · simp [inside, show ¬ i + 1 < length by omega]
  | utf32 => simp [TextAt]

variable (bytes kind) in
theorem starts_window (front : origin = 0 ∨ 2 ≤ i)
    (whole : bytes.length ≤ origin + length ∨ i ≤ length) :
    (i < kind.unitSize ∨ ¬ TextAt ((bytes.drop origin).take length) kind (i - kind.unitSize)) ↔
      (origin + i < kind.unitSize ∨ ¬ TextAt bytes kind (origin + i - kind.unitSize)) := by
  by_cases early : i < kind.unitSize
  · -- At the left edge: of the bytes as well, or no wider character can stand there.
    refine iff_of_true (.inl early) ?_
    rcases front with rfl | far
    · exact .inl (by omega)
    · cases kind with
      | utf32 => exact .inr fun text => text
      | ascii | utf16 =>
        simp only [StringKind.unitSize] at early
        omega
  · have place : origin + (i - kind.unitSize) = origin + i - kind.unitSize := by omega
    rw [textAt_window, place, Nat.sub_add_cancel (Nat.le_of_not_lt early)]
    simp only [early, show ¬ origin + i < kind.unitSize by omega, false_or]
    refine not_congr (and_iff_left_of_imp fun text => ?_)
    have := text.within
    omega

theorem stands_window (some_ : 0 < most) (ordered : least ≤ most) (front : origin = 0 ∨ 2 ≤ i)
    (whole : bytes.length ≤ origin + length ∨ i + 2 * most ≤ length) :
    Stands ((bytes.drop origin).take length) least most kind i count ↔
      Stands bytes least most kind (origin + i) count := by
  have same (j : Nat) (early : j < most) :
      TextAt ((bytes.drop origin).take length) kind (i + j * kind.unitSize) ↔
        TextAt bytes kind (origin + i + j * kind.unitSize) := by
    rw [textAt_window, ← Nat.add_assoc]
    refine and_iff_left_of_imp fun text => ?_
    have within := text.within
    cases kind with
    | ascii | utf16 =>
      simp only [StringKind.unitSize] at within ⊢
      omega
    | utf32 => exact text.elim
  have starts := starts_window bytes kind front (whole.imp_right fun _ => by omega)
  constructor
  · rintro ⟨n, run, long, rfl⟩
    obtain ⟨m, other, sizes⟩ := run.carry some_ (fun j early => (same j early).symm)
      (starts.1 run.starts) (exists_not_textAt ..)
    exact ⟨m, other, by omega, by omega⟩
  · rintro ⟨n, run, long, rfl⟩
    obtain ⟨m, other, sizes⟩ := run.carry some_ same (starts.2 run.starts) (exists_not_textAt ..)
    exact ⟨m, other, by omega, by omega⟩

theorem shows_window (some_ : 0 < most) (ordered : least ≤ most) (front : origin = 0 ∨ 2 ≤ i)
    (whole : bytes.length ≤ origin + length ∨ i + 2 * most ≤ length) :
    Shows ((bytes.drop origin).take length) least most kind i count ↔
      Shows bytes least most kind (origin + i) count := by
  simp only [Shows, stands_window some_ ordered front whole]

theorem reference_add (base : Word) (kind : StringKind) (origin i count : Nat) :
    reference (base + .ofNat origin) kind i count = reference base kind (origin + i) count := by
  simp only [reference, UInt64.ofNat_add, UInt64.add_assoc]

/-- The strings that begin in a range. -/
def between (position stop : Word) (strings : List StringReference) : List StringReference :=
  strings.filter fun s => position ≤ s.start && s.start < stop

theorem mem_between {position stop : Word} {strings : List StringReference} {s : StringReference} :
    s ∈ between position stop strings ↔
      s ∈ strings ∧ position.toNat ≤ s.start.toNat ∧ s.start.toNat < stop.toNat := by
  simp [between, UInt64.le_iff_toNat_le, UInt64.lt_iff_toNat_lt]

theorem eq_of_ascending {l l' : List StringReference}
    (ascending : l.Pairwise (fun s t => s.start < t.start))
    (ascending' : l'.Pairwise (fun s t => s.start < t.start)) (same : ∀ s, s ∈ l ↔ s ∈ l') :
    l = l' := by
  have : Std.Irrefl fun s t : StringReference => s.start < t.start := ⟨fun _ => Std.lt_irrefl⟩
  have : Std.Antisymm fun s t : StringReference => s.start < t.start :=
    ⟨fun _ _ before behind => absurd (Std.lt_trans before behind) Std.lt_irrefl⟩
  exact ascending.eq_of_mem_iff ascending' same

/-- A window shows in its own part what the whole shows there. -/
theorem scan_window (position stop : Word) (origin length : Nat)
    (room : base.toNat + bytes.length < 0x10000000000000000)
    (inside : origin ≤ bytes.length) (some_ : 0 < most) (ordered : max least 1 ≤ most)
    (behind : base.toNat + origin ≤ position.toNat)
    (front : origin = 0 ∨ base.toNat + origin + 2 ≤ position.toNat)
    (whole : bytes.length ≤ origin + length ∨
      stop.toNat + 2 * most ≤ base.toNat + origin + length) :
    between position stop
        (scan ((bytes.drop origin).take length) (base + .ofNat origin) least most) =
      between position stop (scan bytes base least most) := by
  have cut : max most (max least 1) = most := Nat.max_eq_left ordered
  have place : (base + UInt64.ofNat origin).toNat = base.toNat + origin :=
    Word.toNat_add_ofNat (by omega)
  have room' : (base + UInt64.ofNat origin).toNat + ((bytes.drop origin).take length).length <
      0x10000000000000000 := by
    rw [List.length_take, List.length_drop]
    omega
  refine eq_of_ascending ((scan_ascending ..).filter _) ((scan_ascending ..).filter _) fun s => ?_
  refine mem_between.trans (Iff.trans ?_ mem_between.symm)
  rw [mem_scan room, mem_scan room', cut]
  refine and_congr_left fun ⟨own, before⟩ => ⟨?_, ?_⟩
  · rintro ⟨i, count, shows_, made⟩
    have begins := shows_.1.toNat_start room'
    rw [← made, place] at begins
    exact ⟨origin + i, count, (shows_window some_ ordered (by omega) (by omega)).1 shows_,
      made.trans (reference_add ..)⟩
  · rintro ⟨i, count, shows_, made⟩
    have begins := shows_.1.toNat_start room
    rw [← made] at begins
    obtain ⟨i, rfl⟩ := Nat.exists_eq_add_of_le (show origin ≤ i by omega)
    exact ⟨i, count, (shows_window some_ ordered (by omega) (by omega)).2 shows_,
      made.trans (reference_add ..).symm⟩

/-- The strings that begin at or behind an address. -/
def onward (position : Word) (strings : List StringReference) : List StringReference :=
  strings.filter fun s => position ≤ s.start

theorem onward_eq_append {position stop : Word} (ordered : position ≤ stop)
    {strings : List StringReference} (ascending : strings.Pairwise (fun s t => s.start < t.start)) :
    onward position strings = between position stop strings ++ onward stop strings := by
  refine eq_of_ascending (ascending.filter _) (List.pairwise_append.2
    ⟨ascending.filter _, ascending.filter _, fun s early t late => ?_⟩) fun s => ?_
  · have late : stop ≤ t.start := by simpa using (List.mem_filter.1 late).2
    exact Std.lt_of_lt_of_le (UInt64.lt_iff_toNat_lt.2 (mem_between.1 early).2.2) late
  · simp only [onward, between, List.mem_append, List.mem_filter, ← and_or_left, Bool.and_eq_true,
      decide_eq_true_eq]
    refine and_congr_right fun _ => ⟨fun own => ?_, ?_⟩
    · exact (Decidable.em (s.start < stop)).imp (fun before => ⟨own, before⟩) UInt64.not_lt.1
    · rintro (⟨own, -⟩ | late)
      · exact own
      · exact Std.le_trans ordered late

theorem onward_eq_between {position stop : Word} {strings : List StringReference}
    (before : ∀ s ∈ strings, s.start < stop) :
    onward position strings = between position stop strings :=
  List.filter_congr fun s member => by simp [before s member]

theorem start_of_mem_scan (room : base.toNat + bytes.length < 0x10000000000000000)
    {s : StringReference} (member : s ∈ scan bytes base least most) :
    base.toNat ≤ s.start.toNat ∧ s.start.toNat < base.toNat + bytes.length := by
  obtain ⟨i, count, ⟨stands, -⟩, made⟩ := (mem_scan room).1 member
  have begins := stands.toNat_start room
  rw [← made] at begins
  have := stands.begins
  omega

theorem onward_scan_self (room : base.toNat + bytes.length < 0x10000000000000000) :
    onward base (scan bytes base least most) = scan bytes base least most :=
  List.filter_eq_self.2 fun _ member =>
    decide_eq_true (UInt64.le_iff_toNat_le.2 (start_of_mem_scan room member).1)

@[simp] theorem scan_nil (base : Word) (least most : Nat) : scan [] base least most = [] :=
  scan_of_ascending rfl .nil

theorem onward_scan_eq_nil {position : Word}
    (room : base.toNat + bytes.length < 0x10000000000000000)
    (behind : base.toNat + bytes.length ≤ position.toNat) :
    onward position (scan bytes base least most) = [] := by
  refine List.filter_eq_nil_iff.2 fun s member => ?_
  have := (start_of_mem_scan room member).2
  simp only [decide_eq_true_eq, UInt64.le_iff_toNat_le]
  omega

end Window

end StringScan

namespace Space

open StringScan

variable {s : Space} {first stop overlap window : Word} {least most : Nat}

/-- `scanWindows` with sums and differences that fail where they leave the range of words. It also
fails where it is not over after so many turns. -/
def windowTurns? (s : Space) (first stop overlap window : Word) (least most : Nat) :
    Nat → Word → Option (List StringReference)
  | 0, position => if position < stop then none else some []
  | turns + 1, position =>
    if position < stop then do
      let origin := max (Word.subCapped position stringLookback) first
      let want := min (← Word.sub? stop origin) window
      let bytes := s.read origin want.toNat
      if bytes.isEmpty then some []
      else
        let windowStop ← Word.add? origin (.ofNat bytes.length)
        if bytes.length < want.toNat || stop ≤ windowStop then
          some (between position windowStop (scan bytes origin least most))
        else do
          let ownedStop ← Word.sub? windowStop overlap
          let later ← windowTurns? s first stop overlap window least most turns ownedStop
          some (between position ownedStop (scan bytes origin least most) ++ later)
    else some []

theorem scanWindows_of_turns (turns : Nat) {position : Word} {strings : List StringReference}
    (ran : windowTurns? s first stop overlap window least most turns position = some strings) :
    scanWindows s first stop overlap window least most turns position = strings := by
  induction turns generalizing position strings with
  | zero =>
    rw [windowTurns?] at ran
    split at ran
    · cases ran
    · exact Option.some.inj ran
  | succ turns ih =>
    rw [windowTurns?] at ran
    rw [scanWindows]
    split
    · rename_i before
      rw [if_pos before] at ran
      obtain ⟨missing, missing_eq, ran⟩ := Option.bind_eq_some_iff.1 ran
      obtain rfl := Word.eq_of_sub? missing_eq
      simp only at ran
      split at ran
      · rename_i empty
        rw [if_pos empty]
        exact Option.some.inj ran
      · rename_i some_
        rw [if_neg some_]
        obtain ⟨windowStop, reach, ran⟩ := Option.bind_eq_some_iff.1 ran
        obtain rfl := Word.eq_of_add? reach
        split at ran
        · rename_i last
          simp only [last, if_true]
          exact Option.some.inj ran
        · rename_i more
          obtain ⟨ownedStop, owned, ran⟩ := Option.bind_eq_some_iff.1 ran
          obtain rfl := Word.eq_of_sub? owned
          obtain ⟨later, later_eq, ran⟩ := Option.bind_eq_some_iff.1 ran
          simp only [more, Bool.false_eq_true, if_false, ih later_eq]
          exact Option.some.inj ran
    · rename_i past
      rw [if_neg past] at ran
      exact Option.some.inj ran

/-- What is read for the strings from a position on: a window, or as much as there is, from a little
before the position. -/
structure ReadsWindow (s : Space) (first stop window position origin windowStop : Word) (want : Nat)
    (part : List UInt8) : Prop where
  behind : first.toNat ≤ origin.toNat
  front : origin.toNat = first.toNat ∨ origin.toNat + 2 ≤ position.toNat
  ahead : origin.toNat ≤ position.toNat
  near : position.toNat ≤ origin.toNat + 2
  within : origin.toNat + want ≤ stop.toNat
  wide : want = window.toNat ∨ origin.toNat + want = stop.toNat
  read : part = s.read origin want
  reaches : windowStop.toNat = origin.toNat + part.length

/-- What one turn does: it shows its own part of what it reads. It is the last one, or the next goes
on at the end of that part. -/
theorem windowTurns_cases (wide : 2 * overlap.toNat + 4 ≤ window.toNat) (turns : Nat)
    {position : Word} (behind : first.toNat ≤ position.toNat) (before : position < stop) :
    ∃ (origin windowStop : Word) (want : Nat) (part : List UInt8),
      ReadsWindow s first stop window position origin windowStop want part ∧
      (((part.length < want ∨ stop.toNat ≤ windowStop.toNat) ∧
          windowTurns? s first stop overlap window least most (turns + 1) position =
            some (between position windowStop (scan part origin least most))) ∨
        ∃ ownedStop : Word, part.length = window.toNat ∧
          ownedStop.toNat + overlap.toNat = windowStop.toNat ∧
          windowTurns? s first stop overlap window least most (turns + 1) position =
            (windowTurns? s first stop overlap window least most turns ownedStop).map
              (between position ownedStop (scan part origin least most) ++ ·)) := by
  have := stop.toNat_lt
  have below := UInt64.lt_iff_toNat_lt.1 before
  have origin_toNat : (max (Word.subCapped position stringLookback) first).toNat =
      max (position.toNat - 2) first.toNat := by
    rw [Word.toNat_max, Word.toNat_subCapped]
    rfl
  rw [windowTurns?, if_pos before]
  generalize max (Word.subCapped position stringLookback) first = origin at *
  have missing := Word.sub?_of_le (a := stop) (b := origin) (by omega)
  have want_toNat := Word.toNat_min (stop - origin) window
  rw [missing.2] at want_toNat
  simp only [missing.1, bind, Option.bind_some]
  generalize (min (stop - origin) window).toNat = want at *
  generalize part_eq : s.read origin want = part
  have bounded : part.length ≤ want := part_eq ▸ length_read_le s origin want
  have shift : (UInt64.ofNat part.length).toNat = part.length :=
    UInt64.toNat_ofNat_of_lt' (show _ < 0x10000000000000000 by omega)
  have reach := Word.add?_of_lt (a := origin) (b := .ofNat part.length) (by omega)
  rw [shift] at reach
  have reads : ReadsWindow s first stop window position origin (origin + .ofNat part.length) want
      part :=
    ⟨by omega, by omega, by omega, by omega, by omega, by omega, part_eq.symm, reach.2⟩
  refine ⟨origin, _, want, part, reads, ?_⟩
  simp only [reach.1, Option.bind_some]
  generalize origin + .ofNat part.length = windowStop at *
  split
  · rename_i empty
    obtain rfl := List.isEmpty_iff.1 empty
    exact .inl ⟨.inl (by rw [List.length_nil]; omega), by simp [between]⟩
  · simp only [Bool.or_eq_true, decide_eq_true_eq, UInt64.le_iff_toNat_le]
    split
    · rename_i last
      exact .inl ⟨last, rfl⟩
    · have owned := Word.sub?_of_le (a := windowStop) (b := overlap) (by omega)
      simp only [owned.1, Option.bind_some]
      exact .inr ⟨windowStop - overlap, by omega, by omega, Option.map_eq_bind.symm⟩

/-- Each turn but the last goes on behind where it began. So there is an end to them, whatever the
reads answer. -/
theorem windowTurns_isSome (wide : 2 * overlap.toNat + 4 ≤ window.toNat) (turns : Nat)
    {position : Word} (behind : first.toNat ≤ position.toNat)
    (enough : stop.toNat - position.toNat ≤ turns) :
    (windowTurns? s first stop overlap window least most turns position).isSome = true := by
  have past {position : Word} (turns : Nat) (beyond : ¬ position < stop) :
      (windowTurns? s first stop overlap window least most turns position).isSome = true := by
    cases turns <;> simp [windowTurns?, beyond]
  induction turns generalizing position with
  | zero =>
    refine past 0 ?_
    rw [UInt64.lt_iff_toNat_lt]
    omega
  | succ turns ih =>
    by_cases before : position < stop
    · obtain ⟨origin, windowStop, want, part, reads, ⟨-, turn⟩ | ⟨ownedStop, full, owned, turn⟩⟩ :=
        windowTurns_cases wide turns behind before
      · rw [turn, Option.isSome_some]
      · obtain ⟨behind, -, -, near, -, -, -, reaches⟩ := reads
        rw [turn, Option.isSome_map]
        exact ih (by omega) (by omega)
    · exact past _ before

/-- A turn at a position is the last one, or the next one is further on. -/
theorem windowTurns_advances (wide : 2 * overlap.toNat + 4 ≤ window.toNat) (some_ : 0 < overlap)
    (turns : Nat) {position : Word} (behind : first ≤ position) (before : position < stop) :
    ∃ found, windowTurns? s first stop overlap window least most (turns + 1) position = some found ∨
      ∃ next, position < next ∧ next < stop ∧
        windowTurns? s first stop overlap window least most (turns + 1) position =
          (windowTurns? s first stop overlap window least most turns next).map (found ++ ·) := by
  rw [UInt64.le_iff_toNat_le] at behind
  rw [UInt64.lt_iff_toNat_lt] at some_
  obtain ⟨origin, windowStop, want, part, reads, ⟨-, turn⟩ | ⟨ownedStop, full, owned, turn⟩⟩ :=
    windowTurns_cases wide turns behind before
  · exact ⟨_, .inl turn⟩
  · obtain ⟨-, -, -, near, within, -, read, reaches⟩ := reads
    have bounded : part.length ≤ want := read ▸ length_read_le s origin want
    have none_ : (0 : Word).toNat = 0 := rfl
    refine ⟨_, .inr ⟨ownedStop, ?_, ?_, turn⟩⟩ <;> rw [UInt64.lt_iff_toNat_lt] <;> omega

/-- The windows are wide enough for strings of which so many characters count. -/
structure WindowsFit (overlap window : Word) (least most : Nat) : Prop where
  enough : 0 < most
  ordered : max least 1 ≤ most
  double : overlap.toNat = 2 * most
  wide : 2 * overlap.toNat + 4 ≤ window.toNat

section Whole

variable {bytes : List UInt8}

/-- A read inside the whole shows a part of it. -/
theorem read_window (sound : s.map.Sound) (truthful : s.storage.Truthful)
    (bytes_eq : s.read first (stop.toNat - first.toNat) = bytes) {origin : Word} {want : Nat}
    (behind : first.toNat ≤ origin.toNat) (inside : origin.toNat ≤ first.toNat + bytes.length)
    (within : origin.toNat + want ≤ stop.toNat) :
    s.read origin want = (bytes.drop (origin.toNat - first.toNat)).take want ∧
      origin = first + .ofNat (origin.toNat - first.toNat) := by
  have := stop.toNat_lt
  have := origin.toNat_lt
  have place : origin = first + .ofNat (origin.toNat - first.toNat) := by
    rw [← UInt64.toNat_inj, Word.toNat_add_ofNat (by omega)]
    omega
  refine ⟨?_, place⟩
  conv_lhs => rw [place]
  rw [← bytes_eq] at inside ⊢
  exact (Search.read_inside sound truthful (by omega) (by omega) (by omega)).symm

theorem whole_bounded (sound : s.map.Sound) (truthful : s.storage.Truthful)
    (bytes_eq : s.read first (stop.toNat - first.toNat) = bytes) :
    bytes.length ≤ stop.toNat - first.toNat ∧
      first.toNat + bytes.length < 0x10000000000000000 := by
  have := stop.toNat_lt
  have := first.toNat_lt
  have bounded : bytes.length ≤ stop.toNat - first.toNat := by
    have longest := read_prefix sound truthful
      (show first.toNat + (stop.toNat - first.toNat) < 0x10000000000000000 by omega)
    exact bytes_eq ▸ longest.bounded
  exact ⟨bounded, by omega⟩

/-- A turn shows what is left of the whole, or a part of it before it goes on behind that. -/
theorem windowTurns_turn (sound : s.map.Sound) (truthful : s.storage.Truthful)
    (fit : WindowsFit overlap window least most)
    (bytes_eq : s.read first (stop.toNat - first.toNat) = bytes) (turns : Nat) {position : Word}
    (behind : first.toNat ≤ position.toNat) (inside : position.toNat ≤ first.toNat + bytes.length)
    (before : position < stop) :
    windowTurns? s first stop overlap window least most (turns + 1) position =
        some (onward position (scan bytes first least most)) ∨
      ∃ ownedStop, position < ownedStop ∧ ownedStop.toNat ≤ first.toNat + bytes.length ∧
        windowTurns? s first stop overlap window least most (turns + 1) position =
          (windowTurns? s first stop overlap window least most turns ownedStop).map
            (between position ownedStop (scan bytes first least most) ++ ·) := by
  obtain ⟨some_, ordered, overlap_eq, wide⟩ := fit
  obtain ⟨bounded, room⟩ := whole_bounded sound truthful bytes_eq
  obtain ⟨origin, windowStop, want, part, reads, turn⟩ := windowTurns_cases wide turns behind before
  obtain ⟨behind, front, ahead, near, within, -, part_eq, reaches⟩ := reads
  obtain ⟨read_eq, place⟩ := read_window sound truthful bytes_eq behind (by omega) within
  rw [read_eq] at part_eq
  have size := congrArg List.length part_eq
  rw [List.length_take, List.length_drop] at size
  -- What is read for a window is a part of the whole, so both show the same strings of its own.
  have shown {ownedStop : Word} (whole : bytes.length ≤ origin.toNat - first.toNat + want ∨
        ownedStop.toNat + 2 * most ≤ first.toNat + (origin.toNat - first.toNat) + want) :
      between position ownedStop (scan part origin least most) =
        between position ownedStop (scan bytes first least most) := by
    clear turn size
    have seen := scan_window position ownedStop (origin.toNat - first.toNat) want room (by omega)
      some_ ordered (by omega) (by omega) whole
    rwa [← place, ← part_eq] at seen
  rcases turn with ⟨last, turn⟩ | ⟨ownedStop, full, owned, turn⟩
  · rw [turn, shown (by omega), onward_eq_between fun t member => ?_]
    · exact .inl rfl
    · have := (start_of_mem_scan room member).2
      rw [UInt64.lt_iff_toNat_lt]
      omega
  · refine .inr ⟨ownedStop, UInt64.lt_iff_toNat_lt.2 (by omega), by omega, ?_⟩
    rw [turn, shown (by omega)]

theorem windowTurns_eq (sound : s.map.Sound) (truthful : s.storage.Truthful)
    (fit : WindowsFit overlap window least most)
    (bytes_eq : s.read first (stop.toNat - first.toNat) = bytes) (turns : Nat) {position : Word}
    (behind : first.toNat ≤ position.toNat) (inside : position.toNat ≤ first.toNat + bytes.length)
    (enough : stop.toNat - position.toNat ≤ turns) :
    windowTurns? s first stop overlap window least most turns position =
      some (onward position (scan bytes first least most)) := by
  obtain ⟨bounded, room⟩ := whole_bounded sound truthful bytes_eq
  have past {position : Word} (beyond : ¬ position < stop) (behind : first.toNat ≤ position.toNat) :
      onward position (scan bytes first least most) = [] := by
    rw [UInt64.lt_iff_toNat_lt] at beyond
    exact onward_scan_eq_nil room (by omega)
  induction turns generalizing position with
  | zero =>
    have beyond : ¬ position < stop := by
      rw [UInt64.lt_iff_toNat_lt]
      omega
    rw [windowTurns?, if_neg beyond, past beyond behind]
  | succ turns ih =>
    by_cases before : position < stop
    · rcases windowTurns_turn sound truthful fit bytes_eq turns behind inside before with
        last | ⟨ownedStop, further, inside, turn⟩
      · exact last
      · -- Each turn but the last goes on behind where it began, so there are turns enough.
        have ahead := UInt64.lt_iff_toNat_lt.1 further
        rw [turn, ih (by omega) inside (by omega), Option.map_some,
          ← onward_eq_append (UInt64.le_of_lt further) (scan_ascending ..)]
    · rw [windowTurns?, if_neg before, past before behind]

end Whole

/-- How many bytes a window has. There is no answer where a sum or a product leaves the range of
words. -/
def windowSize? (config : SpaceConfig) : Option Word := do
  let overlap := Word.mulCapped (max config.analysis.maxStringLength 1) 2
  let least ← Word.add? (← Word.mul? overlap 2) (← Word.mul? stringLookback 2)
  some (max config.search.chunkSize least)

/-- `segmentStrings` in the same way. -/
def segmentTurns? (s : Space) (segment : Segment) (turns : Nat) :
    Option (List StringReference) := do
  let most := max s.config.analysis.maxStringLength 1
  let window ← windowSize? s.config
  let stop ← Word.add? segment.start (min segment.dataLength segment.length)
  windowTurns? s segment.start stop (Word.mulCapped most 2) window
    s.config.analysis.minStringLength.toNat most.toNat turns segment.start

theorem windowSize_eq_some {config : SpaceConfig} (sized : windowSize? config = some window) :
    let most := max config.analysis.maxStringLength 1
    let overlap := Word.mulCapped most 2
    max config.search.chunkSize (overlap * 2 + stringLookback * 2) = window ∧
      overlap.toNat = 2 * most.toNat ∧ 2 * overlap.toNat + 4 ≤ window.toNat := by
  intro most overlap
  obtain ⟨double, double_eq, sized⟩ := Option.bind_eq_some_iff.1 sized
  obtain ⟨look, look_eq, sized⟩ := Option.bind_eq_some_iff.1 sized
  obtain ⟨least, least_eq, sized⟩ := Option.bind_eq_some_iff.1 sized
  have overlap_toNat : overlap.toNat = min (most.toNat * 2) _ := Word.toNat_mulCapped most 2
  have double_toNat : double.toNat = overlap.toNat * 2 := Word.mul?_eq_some_iff.1 double_eq
  have look_toNat : look.toNat = 4 := Word.mul?_eq_some_iff.1 look_eq
  have least_toNat := Word.add?_eq_some_iff.1 least_eq
  have window_toNat := congrArg UInt64.toNat (Option.some.inj sized)
  rw [Word.toNat_max] at window_toNat
  have := double.toNat_lt
  refine ⟨?_, by omega, by omega⟩
  rw [← Option.some.inj sized, ← Word.eq_of_add? least_eq, ← Word.eq_of_mul? double_eq,
    ← Word.eq_of_mul? look_eq]

/-- A window has a size exactly if four times the longest string and a little more is a word. -/
theorem windowSize_isSome_iff {config : SpaceConfig} : (windowSize? config).isSome = true ↔
    config.analysis.maxStringLength.toNat ≤ 0x3ffffffffffffffe := by
  have look : Word.mul? stringLookback 2 = some 4 := rfl
  have two : (2 : Word).toNat = 2 := rfl
  have four : (4 : Word).toNat = 4 := rfl
  have most_toNat := Word.toNat_max config.analysis.maxStringLength 1
  have overlap_toNat := Word.toNat_mulCapped (max config.analysis.maxStringLength 1) 2
  rw [show (1 : Word).toNat = 1 from rfl] at most_toNat
  rw [two] at overlap_toNat
  unfold windowSize?
  generalize Word.mulCapped (max config.analysis.maxStringLength 1) 2 = overlap at *
  simp only [look, bind, Option.bind_some]
  cases double : Word.mul? overlap 2 with
  | none =>
    have beyond : ¬ overlap.toNat * 2 < 0x10000000000000000 := fun fits => by
      rw [(Word.mul?_of_lt (a := overlap) (b := 2) fits).1] at double
      cases double
    exact iff_of_false (by simp) (by omega)
  | some twice =>
    have twice_toNat : twice.toNat = overlap.toNat * 2 := Word.mul?_eq_some_iff.1 double
    simp only [Option.bind_some]
    cases sum : Word.add? twice 4 with
    | none =>
      have beyond := Word.add?_eq_none_iff.1 sum
      exact iff_of_false (by simp) (by omega)
    | some least =>
      have least_toNat := Word.add?_eq_some_iff.1 sum
      have := least.toNat_lt
      exact iff_of_true (by simp) (by omega)

theorem windowSize_of_moderate {config : SpaceConfig}
    (moderate : config.analysis.maxStringLength.toNat ≤ 0x1000000000000000) :
    ∃ window, windowSize? config = some window :=
  Option.isSome_iff_exists.1 (windowSize_isSome_iff.2 (Nat.le_trans moderate (by decide)))

/-- How far the stored part of a segment reaches. -/
theorem stored_room {segment : Segment} (forward : segment.start ≤ segment.stop) :
    segment.start.toNat + (min segment.dataLength segment.length).toNat < 0x10000000000000000 ∧
      (min segment.dataLength segment.length).toNat ≤ segment.length.toNat := by
  have length : segment.length.toNat = segment.stop.toNat - segment.start.toNat :=
    (Word.sub?_of_le (UInt64.le_iff_toNat_le.1 forward)).2
  have forward := UInt64.le_iff_toNat_le.1 forward
  have := segment.stop.toNat_lt
  rw [Word.toNat_min]
  omega

/-- Looking for the strings of a segment comes to an end, whatever the reads answer. -/
theorem segmentTurns_isSome {segment : Segment} (forward : segment.start ≤ segment.stop)
    (sized : windowSize? s.config = some window) (turns : Nat)
    (enough : segment.length.toNat ≤ turns) : (s.segmentTurns? segment turns).isSome = true := by
  obtain ⟨room, within⟩ := stored_room forward
  have stop := Word.add?_of_lt room
  simp only [segmentTurns?, sized, stop.1, bind, Option.bind_some]
  exact windowTurns_isSome (windowSize_eq_some sized).2.2 turns (Nat.le_refl _) (by omega)

/-- The strings that one scan of the stored part of a segment shows. -/
def wholeStrings (s : Space) (segment : Segment) : List StringReference :=
  let bytes := s.read segment.start (min segment.dataLength segment.length).toNat
  scan bytes segment.start s.config.analysis.minStringLength.toNat
    (max s.config.analysis.maxStringLength 1).toNat

section Segments

variable {segment : Segment} (sound : s.map.Sound) (truthful : s.storage.Truthful)
  (forward : segment.start ≤ segment.stop)
  (ordered : s.config.analysis.minStringLength ≤ s.config.analysis.maxStringLength)

include sound truthful forward ordered

/-- From the start of a segment on, the windows show all that is in it. -/
theorem windowTurns_whole (sized : windowSize? s.config = some window) {turns : Nat}
    (enough : (min segment.dataLength segment.length).toNat ≤ turns) :
    windowTurns? s segment.start (segment.start + min segment.dataLength segment.length)
        (Word.mulCapped (max s.config.analysis.maxStringLength 1) 2) window
        s.config.analysis.minStringLength.toNat (max s.config.analysis.maxStringLength 1).toNat
        turns segment.start =
      some (s.wholeStrings segment) := by
  obtain ⟨-, double, wide⟩ := windowSize_eq_some sized
  obtain ⟨room, within⟩ := stored_room forward
  have stop := Word.add?_of_lt room
  have ordered := UInt64.le_iff_toNat_le.1 ordered
  have most_toNat := Word.toNat_max s.config.analysis.maxStringLength 1
  rw [show (1 : Word).toNat = 1 from rfl] at most_toNat
  unfold wholeStrings
  generalize max s.config.analysis.maxStringLength 1 = most at *
  generalize Word.mulCapped most 2 = overlap at *
  generalize min segment.dataLength segment.length = stored at *
  have fit : WindowsFit overlap window s.config.analysis.minStringLength.toNat most.toNat :=
    ⟨by omega, by omega, double, wide⟩
  have bytes_eq :
      s.read segment.start ((segment.start + stored).toNat - segment.start.toNat) =
        s.read segment.start stored.toNat := by
    rw [stop.2, Nat.add_sub_cancel_left]
  have room := (whole_bounded sound truthful bytes_eq).2
  rw [windowTurns_eq sound truthful fit bytes_eq turns (Nat.le_refl _) (Nat.le_add_right _ _)
    (by omega), onward_scan_self room]

theorem segmentStrings_scanned (sized : windowSize? s.config = some window) :
    s.segmentStrings segment = s.wholeStrings segment := by
  have stop := Word.add?_of_lt (stored_room forward).1
  unfold segmentStrings
  simp only [(windowSize_eq_some sized).1]
  refine scanWindows_of_turns _ (windowTurns_whole sound truthful forward ordered sized ?_)
  rw [UInt64.toNat_sub_of_le _ _ (UInt64.le_iff_toNat_le.2 (by omega))]
  omega

end Segments

/-- No more than two characters count, so each window is responsible for eight bytes. -/
def textSpace : Space :=
  { ListingCursor.reversedSpace with
    storage := .inMemory
      [0, 0, 0, 0, 0, 0, 0x74, 0x65, 0x78, 0x74, 0, 0, 0, 0x77, 0, 0x69, 0, 0x64, 0, 0]
    map := ⟨.insert .empty 0x10 ⟨1, ⟨0x10, 0x24⟩, 0, 20, .ofBits 4, true, []⟩, .empty, .empty,
      .empty, 1⟩
    config := { analysis := { minStringLength := 2, maxStringLength := 2 }
                search := { chunkSize := 1 } } }

def textSegment : Segment := ⟨1, ⟨0x10, 0x24⟩, 0, 20, .ofBits 4, true, []⟩

theorem textSpace_sound : textSpace.map.Sound := by
  have made : Segment.ofLayout 0x10 20 0 20 (.ofBits 4) true =
      .ok ⟨0, ⟨0x10, 0x24⟩, 0, 20, .ofBits 4, true, []⟩ := rfl
  exact SegmentMap.built_sound (.add .empty made rfl)

/-- The text stands behind a segment that ends before it begins. -/
def hiddenTextSegment : Segment := ⟨2, ⟨1, 12⟩, 0, 11, .ofBits 4, true, []⟩

def hiddenTextConfig : SpaceConfig :=
  { analysis := { minStringLength := 1, maxStringLength := 1 }
    search := { chunkSize := 1 } }

def hiddenTextSnapshot : Snapshot :=
  { ListingCursor.writtenSnapshot "Mapped" [ListingCursor.reversedSegment, hiddenTextSegment]
      .empty with
    config := hiddenTextConfig
    contents := [0, 0, 0, 0, 0, 0, 0, 0, 0, 0x41, 0, 0] }

def hiddenTextSpace : Space :=
  { ListingCursor.reversedSpace with
    storage := ⟨.memory, [0, 0, 0, 0, 0, 0, 0, 0, 0, 0x41, 0, 0], .ofRuns []⟩
    map := ⟨.insert (.insert .empty 4 ListingCursor.reversedSegment) 1 hiddenTextSegment, .empty,
      .empty, .empty, 2⟩
    config := hiddenTextConfig }

theorem hiddenTextSpace_reachable : hiddenTextSpace.Reachable :=
  .restored (show hiddenTextSnapshot.restore .standard = .ok hiddenTextSpace from rfl)
    fun _ => ⟨by decide, by decide⟩

/-- The second window begins behind the start of the other segment, and reads nothing. -/
theorem hiddenTextSpace_windows : hiddenTextSpace.segmentStrings hiddenTextSegment = [] := by
  have origin : max (Word.subCapped 1 stringLookback) 1 = 1 := by decide
  have want : (min ((12 : Word) - 1) 8).toNat = 8 := by decide
  have some_ : (hiddenTextSpace.read 1 8).isEmpty = false := by decide +kernel
  have full : (hiddenTextSpace.read 1 8).length = 8 := by decide +kernel
  have more : (decide (8 < 8) || decide ((12 : Word) ≤ 1 + .ofNat 8)) = false := by decide
  have owned : (1 : Word) + .ofNat 8 - 2 = 7 := by decide
  have blank : scan (hiddenTextSpace.read 1 8) 1 1 1 = [] :=
    scan_of_ascending (by decide +kernel) .nil
  have second : scanWindows hiddenTextSpace 1 12 2 8 1 1 10 7 = [] := by
    rw [scanWindows, if_pos (by decide)]
    exact if_pos (by decide +kernel)
  show scanWindows hiddenTextSpace 1 12 2 8 1 1 11 1 = []
  rw [scanWindows, if_pos (by decide)]
  simp only [origin, want, some_, full, more, owned, blank, second, Bool.false_eq_true, if_false,
    List.filter_nil, List.append_nil]

def lowTextSegment : Segment := ⟨1, ⟨0x10, 0x18⟩, 0, 8, .ofBits 4, true, []⟩

def highTextSegment : Segment :=
  ⟨2, ⟨0x8000000000000010, 0x8000000000000018⟩, 0, 8, .ofBits 4, true, []⟩

/-- So many characters of a string count, and a chunk is a single byte. -/
def lengthyTextConfig (longest : Word) : SpaceConfig :=
  { analysis := { maxStringLength := longest }
    search := { chunkSize := 1 } }

def lengthyTextSnapshot (longest : Word) : Snapshot :=
  { ListingCursor.writtenSnapshot "Mapped" [lowTextSegment, highTextSegment] .empty with
    config := lengthyTextConfig longest
    contents := [0x54, 0x45, 0x58, 0x54, 0x54, 0x45, 0x58, 0x54] }

/-- One text of eight characters, low and high up. -/
def lengthyTextSpace (longest : Word) : Space :=
  { ListingCursor.reversedSpace with
    storage := ⟨.memory, (lengthyTextSnapshot longest).contents, .ofRuns []⟩
    map := ⟨.insert (.insert .empty 0x10 lowTextSegment) 0x8000000000000010 highTextSegment, .empty,
      .empty, .empty, 2⟩
    config := lengthyTextConfig longest }

theorem lengthyTextSpace_reachable : (lengthyTextSpace 0x4000000000000000).Reachable :=
  .restored (show (lengthyTextSnapshot 0x4000000000000000).restore .standard =
    .ok (lengthyTextSpace 0x4000000000000000) from rfl) fun _ => ⟨by decide, by decide⟩

theorem lengthyTextSpace_reads :
    (lengthyTextSpace 0x4000000000000000).read 0x10 4 = [0x54, 0x45, 0x58, 0x54] ∧
      (lengthyTextSpace 0x4000000000000000).read 0x8000000000000010 4 =
        [0x54, 0x45, 0x58, 0x54] ∧
      (lengthyTextSpace 0x4000000000000000).read 0x10 8 =
        [0x54, 0x45, 0x58, 0x54, 0x54, 0x45, 0x58, 0x54] := by
  decide +kernel

/-- A window of four bytes ends so far in front of its overlap that the first one, whose part wraps
around, is taken for all there is. -/
theorem lengthyTextSpace_low :
    (lengthyTextSpace 0x4000000000000000).segmentStrings lowTextSegment = [⟨.ascii, 0x10, 4⟩] := by
  have origin : max (Word.subCapped 0x10 stringLookback) 0x10 = 0x10 := by decide
  have want : (min ((0x18 : Word) - 0x10) 4).toNat = 4 := by decide
  have read := lengthyTextSpace_reads.1
  have some_ : ([0x54, 0x45, 0x58, 0x54] : List UInt8).isEmpty = false := rfl
  have full : ([0x54, 0x45, 0x58, 0x54] : List UInt8).length = 4 := rfl
  have more : (decide (4 < 4) || decide ((0x18 : Word) ≤ 0x10 + .ofNat 4)) = false := by decide
  have owned : (0x10 : Word) + .ofNat 4 - 0x8000000000000000 = 0x8000000000000014 := by decide
  have found : scan [0x54, 0x45, 0x58, 0x54] 0x10 4 0x4000000000000000 = [⟨.ascii, 0x10, 4⟩] :=
    scan_of_ascending (by decide) (by decide)
  show scanWindows (lengthyTextSpace 0x4000000000000000) 0x10 0x18 0x8000000000000000 4 4
    0x4000000000000000 8 0x10 = _
  rw [scanWindows, if_pos (by decide)]
  simp only [origin, want, read, some_, full, more, owned, found, Bool.false_eq_true, if_false]
  rw [scanWindows, if_neg (by decide)]
  decide

/-- High up the next window would begin far below the segment, and then once more where it is: there
is no end to it. -/
theorem lengthyTextSpace_high (turns : Nat) {position : Word}
    (place : position = 0x8000000000000010 ∨ position = 0x14) :
    scanWindows (lengthyTextSpace 0x4000000000000000) 0x8000000000000010 0x8000000000000018
        0x8000000000000000 4 4 0x4000000000000000 (turns + 1) position =
      scanWindows (lengthyTextSpace 0x4000000000000000) 0x8000000000000010 0x8000000000000018
        0x8000000000000000 4 4 0x4000000000000000 turns 0x14 := by
  have before : position < 0x8000000000000018 := by rcases place with rfl | rfl <;> decide
  have origin : max (Word.subCapped position stringLookback) 0x8000000000000010 =
      0x8000000000000010 := by rcases place with rfl | rfl <;> decide
  have want : (min ((0x8000000000000018 : Word) - 0x8000000000000010) 4).toNat = 4 := by decide
  have read := lengthyTextSpace_reads.2.1
  have some_ : ([0x54, 0x45, 0x58, 0x54] : List UInt8).isEmpty = false := rfl
  have full : ([0x54, 0x45, 0x58, 0x54] : List UInt8).length = 4 := rfl
  have more : (decide (4 < 4) || decide ((0x8000000000000018 : Word) ≤ 0x8000000000000010 +
      .ofNat 4)) = false := by decide
  have owned : (0x8000000000000010 : Word) + .ofNat 4 - 0x8000000000000000 = 0x14 := by decide
  have found : scan [0x54, 0x45, 0x58, 0x54] 0x8000000000000010 4 0x4000000000000000 =
      [⟨.ascii, 0x8000000000000010, 4⟩] := scan_of_ascending (by decide) (by decide)
  have none_ : [(⟨.ascii, 0x8000000000000010, 4⟩ : StringReference)].filter
      (fun string => position ≤ string.start && string.start < 0x14) = [] := by
    rcases place with rfl | rfl <;> decide
  rw [scanWindows, if_pos before]
  simp only [origin, want, read, some_, full, more, owned, found, none_, Bool.false_eq_true,
    if_false, List.nil_append]

end Space

end BinaryAtlas
