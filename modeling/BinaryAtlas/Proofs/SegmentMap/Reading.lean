import BinaryAtlas.Backend
import BinaryAtlas.Proofs.LongestPrefix
import BinaryAtlas.Proofs.SegmentMap.Layers
import BinaryAtlas.Proofs.Storage.Bytes

/-!
Reading through segments goes span by span, but gives what single addresses hold.
-/

set_option autoImplicit false

namespace BinaryAtlas

namespace Segment

variable {s : Segment}

theorem WellFormed.add?_dataLength (wellFormed : s.WellFormed) :
    Word.add? s.start s.dataLength = some (s.start + s.dataLength) ∧
      (s.start + s.dataLength).toNat = s.start.toNat + s.dataLength.toNat :=
  Word.add?_of_lt (Nat.lt_of_le_of_lt wellFormed.stored s.stop.toNat_lt)

theorem WellFormed.dataStop (wellFormed : s.WellFormed) :
    (s.start + s.dataLength).toNat = s.start.toNat + s.dataLength.toNat :=
  wellFormed.add?_dataLength.2

/-- At a stored byte neither its offset nor what is stored from there on leaves the range of
words. -/
theorem WellFormed.stored_inRange (wellFormed : s.WellFormed) {a : Word}
    (from_start : s.start.toNat ≤ a.toNat)
    (stored : a.toNat < s.start.toNat + s.dataLength.toNat) :
    Word.sub? a s.start = some (a - s.start) ∧
      Word.add? s.dataOffset (a - s.start) = some (s.dataOffset + (a - s.start)) ∧
      Word.sub? (s.start + s.dataLength) a = some (s.start + s.dataLength - a) ∧
      (s.start + s.dataLength - a).toNat = s.start.toNat + s.dataLength.toNat - a.toNat := by
  have within := wellFormed.within
  have dataStop := wellFormed.dataStop
  have gap := Word.sub?_of_le from_start
  have offset := Word.add?_of_lt (a := s.dataOffset) (b := a - s.start) (by
    rw [gap.2]
    omega)
  have left := Word.sub?_of_le (a := s.start + s.dataLength) (b := a) (by omega)
  rw [dataStop] at left
  exact ⟨gap.1, offset.1, left.1, left.2⟩

theorem dataOffsetOf?_stored (wellFormed : s.WellFormed) {a : Word}
    (from_start : s.start.toNat ≤ a.toNat)
    (stored : a.toNat < s.start.toNat + s.dataLength.toNat) :
    s.dataOffsetOf? a = some (s.dataOffset + (a - s.start)) ∧
      (s.dataOffset + (a - s.start)).toNat = s.dataOffset.toNat + (a.toNat - s.start.toNat) := by
  have mapped := wellFormed.stored
  have within := wellFormed.within
  have gap : (a - s.start).toNat = a.toNat - s.start.toNat :=
    UInt64.toNat_sub_of_le _ _ (UInt64.le_iff_toNat_le.2 from_start)
  constructor
  · simp only [dataOffsetOf?, Bool.and_eq_true, contains_iff, decide_eq_true_eq,
      UInt64.le_iff_toNat_le, UInt64.lt_iff_toNat_lt, gap]
    rw [if_pos (by omega)]
  · rw [UInt64.toNat_add, gap, Nat.mod_eq_of_lt (by omega)]

theorem dataOffsetOf?_unstored {a : Word} (from_start : s.start.toNat ≤ a.toNat)
    (unstored : s.start.toNat + s.dataLength.toNat ≤ a.toNat) : s.dataOffsetOf? a = none := by
  have gap : (a - s.start).toNat = a.toNat - s.start.toNat :=
    UInt64.toNat_sub_of_le _ _ (UInt64.le_iff_toNat_le.2 from_start)
  simp only [dataOffsetOf?, Bool.and_eq_true, contains_iff, decide_eq_true_eq,
    UInt64.le_iff_toNat_le, UInt64.lt_iff_toNat_lt, gap]
  rw [if_neg (by omega)]

theorem dataOffsetOf?_onward (wellFormed : s.WellFormed) {a : Word} {i : Nat}
    (from_start : s.start.toNat ≤ a.toNat) (range : a.toNat + i < 0x10000000000000000) :
    s.dataOffsetOf? (a + .ofNat i) =
      if a.toNat + i < s.start.toNat + s.dataLength.toNat
      then some (s.dataOffset + (a - s.start) + .ofNat i) else none := by
  have place := Word.toNat_add_ofNat range
  by_cases stored : a.toNat + i < s.start.toNat + s.dataLength.toNat
  · have backed := (dataOffsetOf?_stored (a := a + .ofNat i) wellFormed (by omega) (by omega)).1
    have same : s.dataOffset + (a + .ofNat i - s.start) =
        s.dataOffset + (a - s.start) + .ofNat i := by
      grind
    rw [backed, if_pos stored, same]
  · rw [dataOffsetOf?_unstored (by omega) (by omega), if_neg stored]

end Segment

namespace SegmentMap

/-- The byte that an address reads as. -/
def byteAt? (m : SegmentMap) (storage : Storage) (a : Word) : Option UInt8 :=
  match m.at? a with
  | none => none
  | some s =>
    match s.dataOffsetOf? a with
    | some offset => storage.contents[offset.toNat]?
    | none => some 0

variable {m : SegmentMap} {storage : Storage}

theorem span?_places (sound : m.Sound) {a stop : Word} {s : Segment}
    (found : m.span? a = some (s, stop)) :
    s.start.toNat ≤ a.toNat ∧ a.toNat < stop.toNat ∧ stop.toNat ≤ s.stop.toNat := by
  obtain ⟨-, from_start, before, within, -⟩ := span?_eq_some sound found
  exact ⟨UInt64.le_iff_toNat_le.1 from_start, UInt64.lt_iff_toNat_lt.1 before,
    UInt64.le_iff_toNat_le.1 within⟩

theorem at?_onward (sound : m.Sound) {a stop : Word} {s : Segment}
    (found : m.span? a = some (s, stop)) {i : Nat} (inside : a.toNat + i < stop.toNat) :
    a.toNat + i < 0x10000000000000000 ∧ m.at? (a + .ofNat i) = some s := by
  have range : a.toNat + i < 0x10000000000000000 := Nat.lt_trans inside stop.toNat_lt
  obtain ⟨-, -, -, -, governs⟩ := span?_eq_some sound found
  refine ⟨range, governs _ ?_ ?_⟩
  · rw [UInt64.le_iff_toNat_le, Word.toNat_add_ofNat range]
    exact Nat.le_add_right _ _
  · rwa [UInt64.lt_iff_toNat_lt, Word.toNat_add_ofNat range]

theorem toNat_offset (sound : m.Sound) {a stop : Word} {s : Segment}
    (found : m.span? a = some (s, stop)) {i : Nat}
    (stored : a.toNat + i < s.start.toNat + s.dataLength.toNat) :
    (s.dataOffset + (a - s.start) + .ofNat i).toNat = (s.dataOffset + (a - s.start)).toNat + i := by
  obtain ⟨from_start, _, _⟩ := span?_places sound found
  have wellFormed := (span?_eq_some sound found).1
  have within := wellFormed.within
  have first := (Segment.dataOffsetOf?_stored wellFormed from_start (by omega)).2
  rw [Word.toNat_add_ofNat (by omega)]

/-- Within a span the stored bytes come first, then zeros. -/
theorem onward?_byteAt? (sound : m.Sound) {a stop : Word} {s : Segment}
    (found : m.span? a = some (s, stop)) {i : Nat} (inside : a.toNat + i < stop.toNat) :
    onward? (m.byteAt? storage) a i =
      if a.toNat + i < s.start.toNat + s.dataLength.toNat then
        storage.contents[(s.dataOffset + (a - s.start)).toNat + i]?
      else some 0 := by
  obtain ⟨range, governed⟩ := at?_onward sound found inside
  obtain ⟨from_start, _, _⟩ := span?_places sound found
  have backed := Segment.dataOffsetOf?_onward (span?_eq_some sound found).1 from_start range
  rw [onward?_of_lt _ range]
  by_cases stored : a.toNat + i < s.start.toNat + s.dataLength.toNat
  · simp only [byteAt?, governed, backed, stored, if_true, toNat_offset sound found stored]
  · simp only [byteAt?, governed, backed, stored, if_false]

theorem onward?_read (sound : m.Sound) (memory : storage.medium = .memory) {a stop : Word}
    {s : Segment} (found : m.span? a = some (s, stop)) {stored i : Nat} (inside : i < stored)
    (governed : a.toNat + stored ≤ stop.toNat)
    (backed : a.toNat + stored ≤ s.start.toNat + s.dataLength.toNat) :
    onward? (m.byteAt? storage) a i =
      (storage.read (s.dataOffset + (a - s.start)) stored)[i]? := by
  rw [onward?_byteAt? sound found (by omega), if_pos (by omega)]
  simp only [Storage.read, memory, Storage.getElem?_slice, inside, if_true]

theorem read_zero (m : SegmentMap) (storage : Storage) (a : Word) : m.read storage a 0 = [] := by
  rw [read]
  split <;> simp

theorem length_read_le (m : SegmentMap) (storage : Storage) (a : Word) (length : Nat) :
    (m.read storage a length).length ≤ length := by
  induction length using Nat.strongRecOn generalizing a with
  | ind length ih =>
    rw [read]
    cases m.span? a with
    | none => simp
    | some span =>
      obtain ⟨s, stop⟩ := span
      simp only
      generalize want_eq : min length (stop - a).toNat = want
      split_ifs with nothing stored short
      · simp
      · have := Storage.length_read_le storage (s.dataOffset + (a - s.start))
          (min want (s.start + s.dataLength - a).toNat)
        omega
      · have := Storage.length_read_le storage (s.dataOffset + (a - s.start))
          (min want (s.start + s.dataLength - a).toNat)
        have := ih (length - want) (by omega) (a + .ofNat want)
        simp only [List.length_append, List.length_replicate]
        omega
      · have := ih (length - want) (by omega) (a + .ofNat want)
        simp only [List.length_append, List.length_replicate]
        omega

/-- Reading depends on what is in the layers and on what reading the storage answers. -/
theorem read_same {m other : SegmentMap} {storage stored : Storage}
    (user : other.userSegments = m.userSegments) (auto : other.autoSegments = m.autoSegments)
    (bytes : ∀ offset length, stored.read offset length = storage.read offset length) (a : Word)
    (length : Nat) : other.read stored a length = m.read storage a length := by
  have span (a : Word) : other.span? a = m.span? a := by rw [span?, span?, user, auto]
  induction length using Nat.strongRecOn generalizing a with
  | ind length ih =>
    conv_lhs => rw [read]
    conv_rhs => rw [read]
    rw [span]
    cases m.span? a with
    | none => rfl
    | some found =>
      obtain ⟨s, stop⟩ := found
      simp only [bytes]
      generalize want_eq : min length (stop - a).toNat = want
      split
      · rfl
      · have rest := ih (length - want) (by omega) (a + .ofNat want)
        rw [rest]

/-- Where one byte can be read, a longer read gives something as well. -/
theorem read_ne_nil {a : Word} (plain : ∀ access, storage.medium ≠ .provider access)
    (byte : m.read storage a 1 ≠ []) {length : Nat} (wanted : 0 < length) :
    m.read storage a length ≠ [] := by
  rw [read] at byte ⊢
  cases found : m.span? a with
  | none => simp [found] at byte
  | some span =>
    obtain ⟨g, stop⟩ := span
    simp only [found] at byte ⊢
    have room : 0 < (stop - a).toNat := by
      by_contra empty
      simp [Nat.eq_zero_of_not_pos empty] at byte
    rw [if_neg (by omega)] at byte ⊢
    by_cases stored : a < g.start + g.dataLength
    · have backed := (Word.sub?_of_le (Nat.le_of_lt (UInt64.lt_iff_toNat_lt.1 stored))).2
      have := UInt64.lt_iff_toNat_lt.1 stored
      rw [if_pos stored] at byte ⊢
      rw [show min (min 1 (stop - a).toNat) (g.start + g.dataLength - a).toNat = 1 by omega] at byte
      have first : storage.read (g.dataOffset + (a - g.start)) 1 ≠ [] := by
        intro nothing
        simp [nothing] at byte
      have bytes := Storage.read_ne_nil plain first
        (show 0 < min (min length (stop - a).toNat) (g.start + g.dataLength - a).toNat by omega)
      split
      · exact bytes
      · intro nothing
        exact bytes (List.append_eq_nil_iff.1 (List.append_eq_nil_iff.1 nothing).1).1
    · have zeros : min length (stop - a).toNat ≠ 0 := by omega
      simp [stored, zeros]

/-- What one span gives to a read: its stored bytes, as far as the storage has them, and zeros for
the rest. -/
theorem read_span (storage : Storage) (sound : m.Sound) {a stop : Word} {s : Segment}
    (found : m.span? a = some (s, stop)) {length want stored : Nat} (wanted : 0 < length)
    (want_eq : want = min length (stop.toNat - a.toNat))
    (stored_eq : stored = min want (s.start.toNat + s.dataLength.toNat - a.toNat))
    {bytes : List UInt8}
    (bytes_eq : bytes = storage.read (s.dataOffset + (a - s.start)) stored) :
    m.read storage a length =
      if bytes.length < stored then bytes
      else bytes ++ List.replicate (want - stored) 0 ++
        m.read storage (a + .ofNat want) (length - want) := by
  obtain ⟨from_start, before, _⟩ := span?_places sound found
  have wellFormed := (span?_eq_some sound found).1
  have dataStop := wellFormed.dataStop
  have room : (stop - a).toNat = stop.toNat - a.toNat :=
    UInt64.toNat_sub_of_le _ _ (UInt64.le_of_lt (UInt64.lt_iff_toNat_lt.2 before))
  have more : ¬ want = 0 := by omega
  rw [read]
  simp only [found, room, ← want_eq, more, if_false, UInt64.lt_iff_toNat_lt, dataStop]
  by_cases backed : a.toNat < s.start.toNat + s.dataLength.toNat
  · obtain ⟨_, _, _, stored_room⟩ := wellFormed.stored_inRange from_start backed
    simp only [backed, if_true, stored_room, ← stored_eq, ← bytes_eq]
  · have unstored : stored = 0 := by omega
    have no_bytes : bytes = [] := by
      rw [bytes_eq, unstored]
      exact List.length_eq_zero_iff.1 (Nat.le_zero.1 (Storage.length_read_le ..))
    simp [backed, unstored, no_bytes]

theorem read_places (sound : m.Sound) (memory : storage.medium = .memory) (a : Word)
    (length : Nat) :
    LongestPrefix (onward? (m.byteAt? storage) a) length (m.read storage a length) := by
  induction length using Nat.strongRecOn generalizing a with
  | ind length ih =>
    cases found : m.span? a with
    | none =>
      have none : m.byteAt? storage a = .none := by
        simp [byteAt?, (span?_eq_none_iff m a).1 found]
      rw [read, found]
      exact .nil ((onward?_zero _ a).trans none)
    | some span =>
      obtain ⟨s, stop⟩ := span
      rcases Nat.eq_zero_or_pos length with rfl | wanted
      · rw [read_zero]
        exact .nil_limit
      · obtain ⟨from_start, before, within⟩ := span?_places sound found
        have := stop.toNat_lt
        rw [read_span storage sound found wanted rfl rfl rfl]
        generalize want_eq : min length (stop.toNat - a.toNat) = want
        generalize stored_eq : min want (s.start.toNat + s.dataLength.toNat - a.toNat) = stored
        generalize bytes_eq : storage.read (s.dataOffset + (a - s.start)) stored = bytes
        have byte {i : Nat} (inside : i < stored) :
            onward? (m.byteAt? storage) a i = bytes[i]? := by
          rw [onward?_read sound memory found inside (by omega) (by omega), bytes_eq]
        have fill {i : Nat} (inside : i < want) (behind : stored ≤ i) :
            onward? (m.byteAt? storage) a i = some 0 := by
          rw [onward?_byteAt? sound found (by omega), if_neg (by omega)]
        have bytes_length : bytes.length ≤ stored := by
          rw [← bytes_eq]
          exact Storage.length_read_le ..
        -- The storage may end before the stored part of the segment does.
        by_cases short : bytes.length < stored
        · rw [if_pos short]
          refine ⟨by omega, fun i inside => byte (by omega), fun _ => ?_⟩
          rw [byte short]
          exact List.getElem?_eq_none (Nat.le_refl _)
        · rw [if_neg short]
          have piece_length : (bytes ++ List.replicate (want - stored) 0).length = want := by
            rw [List.length_append, List.length_replicate]
            omega
          apply LongestPrefix.append
          · omega
          · intro i inside
            rw [piece_length] at inside
            by_cases early : i < stored
            · rw [byte early, List.getElem?_append_left (by omega)]
            · rw [fill inside (by omega), List.getElem?_append_right (by omega),
                List.getElem?_replicate, if_pos (by omega)]
          · rw [piece_length]
            have range : a.toNat + want < 0x10000000000000000 := by omega
            simp only [onward?_add _ range]
            exact ih (length - want) (by omega) _

theorem truthful_read_places (sound : m.Sound) (truthful : storage.Truthful) (a : Word)
    (length : Nat) :
    LongestPrefix (onward? (m.byteAt? storage) a) length (m.read storage a length) := by
  let memory : Storage := ⟨.memory, storage.contents, storage.log⟩
  have bytes (offset : Word) (length : Nat) :
      storage.read offset length = memory.read offset length := truthful offset length
  rw [read_same rfl rfl bytes a length]
  exact read_places sound (show memory.medium = .memory from rfl) a length

def padded (bytes : List UInt8) (length : Word) : List UInt8 :=
  bytes ++ List.replicate (length.toNat - bytes.length) 0

theorem padded_eq (bytes : List UInt8) (fill : Word)
    (range : bytes.length + fill.toNat < 0x10000000000000000) :
    Word.add? (.ofNat bytes.length) fill = some (.ofNat bytes.length + fill) ∧
      padded bytes (.ofNat bytes.length + fill) = bytes ++ List.replicate fill.toNat 0 := by
  have length : (UInt64.ofNat bytes.length).toNat = bytes.length :=
    UInt64.toNat_ofNat_of_lt' (Nat.lt_of_le_of_lt (Nat.le_add_right _ _) range)
  have total := Word.add?_of_lt (length.symm ▸ range)
  rw [length] at total
  refine ⟨total.1, ?_⟩
  rw [padded, total.2, Nat.add_sub_cancel_left]

/-- Reading as a loop with a cursor. It fails where a sum or a difference leaves the range of words,
and where it is not over after so many turns. -/
def readTurns? (m : SegmentMap) (storage : Storage) (length : Word) :
    Nat → Word → List UInt8 → Option (List UInt8)
  | 0, _, _ => none
  | turns + 1, cursor, out =>
    if .ofNat out.length < length then
      match m.span? cursor with
      | none => some out
      | some (s, stop) => do
        let missing ← Word.sub? length (.ofNat out.length)
        let want := min missing (← Word.sub? stop cursor)
        let dataStop ← Word.add? s.start s.dataLength
        if cursor < dataStop then
          let stored := min want (← Word.sub? dataStop cursor)
          let offset ← Word.add? s.dataOffset (← Word.sub? cursor s.start)
          let bytes := storage.read offset stored.toNat
          let next ← Word.add? cursor (.ofNat bytes.length)
          if .ofNat bytes.length < stored then some (out ++ bytes)
          else
            let fill ← Word.sub? want stored
            let total ← Word.add? (.ofNat (out ++ bytes).length) fill
            let next ← Word.add? next fill
            if want = 0 then some (padded (out ++ bytes) total)
            else m.readTurns? storage length turns next (padded (out ++ bytes) total)
        else
          let total ← Word.add? (.ofNat out.length) want
          let next ← Word.add? cursor want
          if want = 0 then some (padded out total)
          else m.readTurns? storage length turns next (padded out total)
    else some out

theorem readTurns_span (storage : Storage) (sound : m.Sound) {cursor stop : Word} {s : Segment}
    (found : m.span? cursor = some (s, stop)) (length : Word) (turns : Nat) {out : List UInt8}
    (wanted : out.length < length.toNat) {want stored : Nat}
    (want_eq : want = min (length.toNat - out.length) (stop.toNat - cursor.toNat))
    (stored_eq : stored = min want (s.start.toNat + s.dataLength.toNat - cursor.toNat))
    {bytes : List UInt8}
    (bytes_eq : bytes = storage.read (s.dataOffset + (cursor - s.start)) stored) :
    m.readTurns? storage length (turns + 1) cursor out =
      if bytes.length < stored then some (out ++ bytes)
      else m.readTurns? storage length turns (cursor + .ofNat want)
        (out ++ (bytes ++ List.replicate (want - stored) 0)) := by
  have := length.toNat_lt
  have := s.stop.toNat_lt
  obtain ⟨from_start, before, within⟩ := span?_places sound found
  have wellFormed := (span?_eq_some sound found).1
  have dataStop := wellFormed.add?_dataLength
  have out_length : (UInt64.ofNat out.length).toNat = out.length :=
    UInt64.toNat_ofNat_of_lt' (Nat.lt_trans wanted length.toNat_lt)
  -- Each sum and difference of the turn, with its value as a number.
  have missing := Word.sub?_of_le (out_length.symm ▸ Nat.le_of_lt wanted)
  have room := Word.sub?_of_le (Nat.le_of_lt before)
  have want_toNat := Word.toNat_min (length - .ofNat out.length) (stop - cursor)
  rw [missing.2, room.2, out_length, ← want_eq] at want_toNat
  rw [readTurns?, if_pos (by rwa [UInt64.lt_iff_toNat_lt, out_length])]
  simp only [found, missing.1, room.1, dataStop.1, bind, Option.bind_some]
  generalize min (length - .ofNat out.length) (stop - cursor) = wantWord at *
  subst want_toNat
  have governed : cursor.toNat + wantWord.toNat < 0x10000000000000000 := by omega
  have bytes_length : bytes.length ≤ stored := by
    rw [bytes_eq]
    exact Storage.length_read_le ..
  have want_pos : wantWord ≠ 0 := by
    rintro rfl
    simp at want_eq
    omega
  rw [UInt64.ofNat_toNat]
  by_cases backed : cursor < s.start + s.dataLength
  · rw [if_pos backed]
    rw [UInt64.lt_iff_toNat_lt, dataStop.2] at backed
    obtain ⟨gap, offset, left, left_toNat⟩ := wellFormed.stored_inRange from_start backed
    have stored_toNat := Word.toNat_min wantWord (s.start + s.dataLength - cursor)
    rw [left_toNat, ← stored_eq] at stored_toNat
    simp only [left, gap, offset, Option.bind_some]
    generalize min wantWord (s.start + s.dataLength - cursor) = storedWord at *
    subst stored_toNat
    rw [← bytes_eq]
    have got : (UInt64.ofNat bytes.length).toNat = bytes.length :=
      UInt64.toNat_ofNat_of_lt' (Nat.lt_of_le_of_lt bytes_length storedWord.toNat_lt)
    have next := Word.add?_of_lt (a := cursor) (b := .ofNat bytes.length) (by omega)
    simp only [next.1, Option.bind_some]
    by_cases short : bytes.length < storedWord.toNat
    · rw [if_pos (by rwa [UInt64.lt_iff_toNat_lt, got]), if_pos short]
    · rw [if_neg (by rwa [UInt64.lt_iff_toNat_lt, got]), if_neg short]
      have fill := Word.sub?_of_le (a := wantWord) (b := storedWord) (by omega)
      have read_length : (out ++ bytes).length = out.length + storedWord.toNat := by
        rw [List.length_append]
        omega
      have extended := padded_eq (out ++ bytes) (wantWord - storedWord) (by omega)
      have last := Word.add?_of_lt (a := cursor + .ofNat bytes.length) (b := wantWord - storedWord)
        (by omega)
      have advance : cursor + .ofNat bytes.length + (wantWord - storedWord) =
          cursor + wantWord := by
        rw [← UInt64.toNat_inj, last.2, next.2, fill.2, (Word.add?_of_lt governed).2]
        omega
      rw [advance] at last
      simp only [fill.1, extended.1, last.1, Option.bind_some, extended.2]
      rw [if_neg want_pos, List.append_assoc, fill.2]
  · rw [if_neg backed]
    rw [UInt64.lt_iff_toNat_lt, dataStop.2] at backed
    have none_stored : stored = 0 := by omega
    have no_bytes : bytes = [] := List.length_eq_zero_iff.1 (by omega)
    have next := Word.add?_of_lt governed
    have extended := padded_eq out wantWord (by omega)
    simp only [extended.1, next.1, Option.bind_some, extended.2]
    rw [if_neg want_pos, none_stored, no_bytes, List.length_nil, if_neg (Nat.lt_irrefl 0),
      List.nil_append, Nat.sub_zero]

theorem readTurns_eq (sound : m.Sound) (length : Word) (turns : Nat) (cursor : Word)
    (out : List UInt8) (bounded : out.length ≤ length.toNat)
    (enough : length.toNat - out.length < turns) :
    m.readTurns? storage length turns cursor out =
      some (out ++ m.read storage cursor (length.toNat - out.length)) := by
  induction turns generalizing cursor out with
  | zero => omega
  | succ turns ih =>
    have out_length : (UInt64.ofNat out.length).toNat = out.length :=
      UInt64.toNat_ofNat_of_lt' (Nat.lt_of_le_of_lt bounded length.toNat_lt)
    by_cases wanted : out.length < length.toNat
    · cases found : m.span? cursor with
      | none =>
        rw [readTurns?, if_pos (by rwa [UInt64.lt_iff_toNat_lt, out_length]), read, found]
        simp
      | some span =>
        obtain ⟨s, stop⟩ := span
        obtain ⟨_, before, _⟩ := span?_places sound found
        have more : 0 < length.toNat - out.length := by omega
        rw [readTurns_span storage sound found length turns wanted rfl rfl rfl,
          read_span storage sound found more rfl rfl rfl]
        generalize want_eq : min (length.toNat - out.length) (stop.toNat - cursor.toNat) = want
        generalize stored_eq :
          min want (s.start.toNat + s.dataLength.toNat - cursor.toNat) = stored
        have bytes_length :=
          Storage.length_read_le storage (s.dataOffset + (cursor - s.start)) stored
        generalize storage.read (s.dataOffset + (cursor - s.start)) stored = bytes at *
        by_cases short : bytes.length < stored
        · rw [if_pos short, if_pos short]
        · have longer : (out ++ (bytes ++ List.replicate (want - stored) 0)).length =
              out.length + want := by
            rw [List.length_append, List.length_append, List.length_replicate]
            omega
          rw [if_neg short, if_neg short, ih _ _ (by omega) (by omega), longer, Nat.sub_add_eq,
            List.append_assoc]
    · have done : length.toNat - out.length = 0 := by omega
      rw [readTurns?, if_neg (by rwa [UInt64.lt_iff_toNat_lt, out_length]), done, read_zero,
        List.append_nil]

/-- Reading memory through segments gives the bytes of single addresses up to the first that has
none. Written as a loop it never computes out of range, and is over after one turn more than there
are bytes wanted. -/
theorem read_correct (built : Built m) (storage : Storage) (memory : storage.medium = .memory)
    (a : Word) :
    (∀ length, LongestPrefix (onward? (m.byteAt? storage) a) length (m.read storage a length)) ∧
      ∀ length : Word, m.readTurns? storage length (length.toNat + 1) a [] =
        some (m.read storage a length.toNat) := by
  have sound := built_sound built
  refine ⟨fun length => read_places sound memory a length, fun length => ?_⟩
  rw [readTurns_eq sound length _ a [] (Nat.zero_le _) (by simp)]
  simp

def nestedMap : SegmentMap :=
  ⟨.insert .empty 0x10 ⟨1, ⟨0x10, 0x1c⟩, 0, 8, .ofPermissions true true false, true, []⟩,
    .insert .empty 0x14 ⟨2, ⟨0x14, 0x16⟩, 0, 2, .ofPermissions true true false, false, []⟩,
    .empty, .empty, 2⟩

theorem nestedMap_built : Built nestedMap := by
  have outer : Segment.ofLayout 0x10 12 0 8 (.ofPermissions true true false) true = .ok
      ⟨0, ⟨0x10, 0x1c⟩, 0, 8, .ofPermissions true true false, true, []⟩ := by
    rfl
  have inner : Segment.ofLayout 0x14 2 0 2 (.ofPermissions true true false) false = .ok
      ⟨0, ⟨0x14, 0x16⟩, 0, 2, .ofPermissions true true false, false, []⟩ := by
    rfl
  exact .add (.add .empty outer rfl) inner rfl

theorem nested_read_correct :
    nestedMap.read (.inMemory [1, 2, 3, 4, 5, 6, 7, 8]) 0x12 20 = [3, 4, 1, 2, 7, 8, 0, 0, 0, 0] ∧
      LongestPrefix (onward? (nestedMap.byteAt? (.inMemory [1, 2, 3, 4, 5, 6, 7, 8])) 0x12) 20
        [3, 4, 1, 2, 7, 8, 0, 0, 0, 0] := by
  obtain ⟨places, turns⟩ :=
    read_correct nestedMap_built (.inMemory [1, 2, 3, 4, 5, 6, 7, 8]) rfl 0x12
  have ran : nestedMap.readTurns? (.inMemory [1, 2, 3, 4, 5, 6, 7, 8]) 20 21 0x12 [] =
      some [3, 4, 1, 2, 7, 8, 0, 0, 0, 0] := by
    decide +kernel
  have bytes := Option.some.inj ((turns 20).symm.trans ran)
  exact ⟨bytes, bytes ▸ places 20⟩

end SegmentMap

end BinaryAtlas
