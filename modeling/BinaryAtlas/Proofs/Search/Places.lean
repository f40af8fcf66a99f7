import BinaryAtlas.Proofs.Listing.Validity
import BinaryAtlas.Proofs.SegmentMap.Reading
import BinaryAtlas.Search

/-!
The places where a pattern stands. A chunk of a search shows those that begin in its own part,
however short it was read.
-/

set_option autoImplicit false

namespace BinaryAtlas

namespace Space

/-- The byte that can be read at an address. -/
def byteAt? (s : Space) (a : Word) : Option UInt8 :=
  match s.backend with
  | .raw => s.storage.contents[a.toNat]?
  | .mapped _ => s.map.byteAt? s.storage a

variable {s : Space}

theorem read_prefix (sound : s.map.Sound) (truthful : s.storage.Truthful) {a : Word} {length : Nat}
    (room : a.toNat + length < 0x10000000000000000) :
    LongestPrefix (onward? s.byteAt? a) length (s.read a length) := by
  unfold read byteAt?
  cases s.backend with
  | mapped label => exact SegmentMap.truthful_read_places sound truthful a length
  | raw =>
    have byte {i : Nat} (inside : i < length) :
        onward? (fun a : Word => s.storage.contents[a.toNat]?) a i =
          s.storage.contents[a.toNat + i]? := by
      rw [onward?_of_lt _ (by omega), Word.toNat_add_ofNat (by omega)]
    show LongestPrefix _ length (s.storage.read a length)
    rw [truthful]
    constructor
    · exact List.length_take_le _ _
    · intro i inside
      have bound : (Storage.slice s.storage.contents a.toNat length).length ≤ length :=
        List.length_take_le _ _
      rw [byte (by omega), Storage.getElem?_slice, if_pos (by omega)]
    · intro short
      rw [byte short]
      simp only [Storage.slice, List.length_take, List.length_drop] at short ⊢
      exact List.getElem?_eq_none (by omega)

theorem byteAt?_of_invalid {a : Word} (invalid : s.isValid a = false) (below : a < Word.top) :
    s.byteAt? a = none := by
  unfold isValid at invalid
  unfold byteAt?
  cases backend : s.backend with
  | mapped label =>
    rw [backend] at invalid
    have unmapped : s.map.at? a = none := by
      simpa [Backend.isValid, SegmentMap.isValid] using invalid
    simp only [SegmentMap.byteAt?, unmapped]
  | raw =>
    rw [backend] at invalid
    have behind : s.storage.length ≤ a := by simpa [Backend.isValid] using invalid
    rw [UInt64.le_iff_toNat_le, Storage.length, Word.toNat_ofNatCapped, Storage.size] at behind
    rw [UInt64.lt_iff_toNat_lt, Word.toNat_top] at below
    exact List.getElem?_eq_none (by omega)

end Space

namespace Search

/-- The second letter is the small form of the first. -/
def Lowers (b c : UInt8) : Prop := 0x41 ≤ b ∧ b ≤ 0x5a ∧ c = b + 0x20

/-- The same byte, or the same letter in its other case. -/
def SameLetter (b c : UInt8) : Prop := b = c ∨ Lowers b c ∨ Lowers c b

/-- Bytes that the pattern stands for. -/
def Matches (caseSensitive : Bool) (pattern bytes : List UInt8) : Prop :=
  if caseSensitive then bytes = pattern else List.Forall₂ SameLetter pattern bytes

theorem foldByte_eq_iff (b c : UInt8) : foldByte b = foldByte c ↔ SameLetter b c := by
  unfold foldByte SameLetter Lowers
  simp only [Bool.and_eq_true, decide_eq_true_eq, UInt8.le_iff_toNat_le, ← UInt8.toNat_inj]
  have := b.toNat_lt
  have := c.toNat_lt
  split <;> split <;> simp only [UInt8.toNat_add, UInt8.reduceToNat] at * <;> omega

theorem fold_eq_iff (caseSensitive : Bool) (pattern bytes : List UInt8) :
    fold caseSensitive pattern = fold caseSensitive bytes ↔
      Matches caseSensitive pattern bytes := by
  cases caseSensitive with
  | true => simp [fold, Matches, eq_comm]
  | false =>
    have same : SameLetter = fun b c => foldByte b = foldByte c :=
      funext fun b => funext fun c => propext (foldByte_eq_iff b c).symm
    simp only [fold, Matches, Bool.false_eq_true, if_false, same]
    rw [← List.forall₂_eq_eq_eq, List.forall₂_map_left_iff, List.forall₂_map_right_iff]

theorem length_fold (caseSensitive : Bool) (bytes : List UInt8) :
    (fold caseSensitive bytes).length = bytes.length := by
  cases caseSensitive <;> simp [fold]

theorem fold_drop (caseSensitive : Bool) (bytes : List UInt8) (n : Nat) :
    (fold caseSensitive bytes).drop n = fold caseSensitive (bytes.drop n) := by
  cases caseSensitive <;> simp [fold, List.map_drop]

theorem fold_take (caseSensitive : Bool) (bytes : List UInt8) (n : Nat) :
    (fold caseSensitive bytes).take n = fold caseSensitive (bytes.take n) := by
  cases caseSensitive <;> simp [fold, List.map_take]

theorem occurrences_eq (pattern : List UInt8) (position : Nat) (bytes : List UInt8) :
    occurrences pattern position bytes =
      (List.range' position bytes.length).filter fun i =>
        pattern.isPrefixOf (bytes.drop (i - position)) := by
  induction bytes generalizing position with
  | nil => rfl
  | cons b rest ih =>
    have later : (List.range' (position + 1) rest.length).filter (fun i =>
          pattern.isPrefixOf ((b :: rest).drop (i - position))) =
        (List.range' (position + 1) rest.length).filter fun i =>
          pattern.isPrefixOf (rest.drop (i - (position + 1))) := by
      refine List.filter_congr fun i member => ?_
      obtain ⟨from_next, -⟩ := List.mem_range'_1.1 member
      rw [show i - position = i - (position + 1) + 1 by omega, List.drop_succ_cons]
    rw [List.length_cons, List.range'_succ, List.filter_cons, later, ← ih, Nat.sub_self,
      List.drop_zero, occurrences]

/-- Whether the pattern stands at a place in bytes that were read. -/
theorem isPrefixOf_iff (caseSensitive : Bool) (pattern bytes : List UInt8) (i : Nat) :
    (fold caseSensitive pattern).isPrefixOf ((fold caseSensitive bytes).drop i) = true ↔
      Matches caseSensitive pattern ((bytes.drop i).take pattern.length) := by
  rw [List.isPrefixOf_iff_prefix, List.prefix_iff_eq_take, length_fold, fold_drop, fold_take,
    fold_eq_iff]

theorem Matches.length_eq {caseSensitive : Bool} {pattern bytes : List UInt8}
    (matched : Matches caseSensitive pattern bytes) : bytes.length = pattern.length := by
  have same := congrArg List.length ((fold_eq_iff caseSensitive pattern bytes).2 matched)
  rw [length_fold, length_fold] at same
  exact same.symm

section Hits

variable (s : Space) (caseSensitive : Bool) (pattern : List UInt8) (stop : Word)

instance decidableMatches (bytes : List UInt8) : Decidable (Matches caseSensitive pattern bytes) :=
  decidable_of_iff _ (fold_eq_iff caseSensitive pattern bytes)

/-- What a search is to tell of a place, if the pattern stands there and ends in time. -/
def hitAt? (x : Nat) : Option SearchMatch :=
  let bytes := s.read (.ofNat x) pattern.length
  if x + pattern.length ≤ stop.toNat ∧ Matches caseSensitive pattern bytes then
    some ⟨.ofNat x, .data bytes, none⟩
  else none

/-- The hits that begin at one of the places from `lo` on and below `hi`. -/
def hits (lo hi : Nat) : List SearchMatch :=
  (List.range' lo (hi - lo)).filterMap (hitAt? s caseSensitive pattern stop)

end Hits

variable {s : Space} {caseSensitive : Bool} {pattern : List UInt8} {stop : Word}

theorem hits_append {lo mid hi : Nat} (ordered : lo ≤ mid) (ordered' : mid ≤ hi) :
    hits s caseSensitive pattern stop lo hi =
      hits s caseSensitive pattern stop lo mid ++ hits s caseSensitive pattern stop mid hi := by
  unfold hits
  rw [← List.filterMap_append, show hi - lo = mid - lo + (hi - mid) by omega,
    ← List.range'_append_1, show lo + (mid - lo) = mid by omega]

theorem hits_eq_nil {lo hi : Nat}
    (nothing : ∀ x, lo ≤ x → x < hi → hitAt? s caseSensitive pattern stop x = none) :
    hits s caseSensitive pattern stop lo hi = [] := by
  refine List.filterMap_eq_nil_iff.2 fun x member => ?_
  obtain ⟨from_lo, below⟩ := List.mem_range'_1.1 member
  exact nothing x from_lo (by omega)

theorem mem_hits_iff {lo hi : Nat} (room : hi ≤ 0x10000000000000000) (m : SearchMatch) :
    m ∈ hits s caseSensitive pattern stop lo hi ↔ lo ≤ m.address.toNat ∧ m.address.toNat < hi ∧
      m.address.toNat + pattern.length ≤ stop.toNat ∧
      Matches caseSensitive pattern (s.read m.address pattern.length) ∧
      m.value = .data (s.read m.address pattern.length) ∧ m.line = none := by
  simp only [hits, List.mem_filterMap, List.mem_range'_1, hitAt?]
  constructor
  · rintro ⟨x, ⟨from_lo, below⟩, found⟩
    have place : (UInt64.ofNat x).toNat = x := UInt64.toNat_ofNat_of_lt'
      (show x < 0x10000000000000000 by omega)
    split at found
    · rename_i here
      cases found
      rw [place]
      exact ⟨from_lo, by omega, here.1, here.2, rfl, rfl⟩
    · cases found
  · rintro ⟨from_lo, below, within, here, value, line⟩
    refine ⟨m.address.toNat, ⟨from_lo, by omega⟩, ?_⟩
    rw [UInt64.ofNat_toNat, if_pos ⟨within, here⟩, ← value, ← line]

theorem hits_ascending {lo hi : Nat} (room : hi ≤ 0x10000000000000000) :
    (hits s caseSensitive pattern stop lo hi).Pairwise fun m m' => m.address < m'.address := by
  have sorted : (List.range' lo (hi - lo)).Pairwise (· < ·) := List.pairwise_lt_range'
  have ordered : (List.range' lo (hi - lo)).Pairwise fun x y =>
      x < y ∧ y < 0x10000000000000000 := by
    refine sorted.imp_of_mem fun {x y} _ member before => ⟨before, ?_⟩
    have := List.mem_range'_1.1 member
    omega
  refine ordered.filterMap _ fun x y before m found m' found' => ?_
  have place {z : Nat} {k : SearchMatch} (hit : hitAt? s caseSensitive pattern stop z = some k) :
      k.address = .ofNat z := by
    simp only [hitAt?] at hit
    split at hit
    · cases hit
      rfl
    · cases hit
  rw [place found, place found', UInt64.lt_iff_toNat_lt,
    UInt64.toNat_ofNat_of_lt' (show x < 0x10000000000000000 by omega),
    UInt64.toNat_ofNat_of_lt' (show y < 0x10000000000000000 by omega)]
  exact before.1

theorem hitAt?_none (sound : s.map.Sound) (truthful : s.storage.Truthful) {x i : Nat}
    (inside : i < pattern.length) (nothing : s.byteAt? (.ofNat (x + i)) = none) :
    hitAt? s caseSensitive pattern stop x = none := by
  simp only [hitAt?]
  refine if_neg fun ⟨within, here⟩ => ?_
  have := stop.toNat_lt
  have place : (UInt64.ofNat x).toNat = x := UInt64.toNat_ofNat_of_lt'
    (show x < 0x10000000000000000 by omega)
  have whole := here.length_eq
  have bytes : LongestPrefix (onward? s.byteAt? (.ofNat x)) pattern.length
      (s.read (.ofNat x) pattern.length) := Space.read_prefix sound truthful (by omega)
  have byte := bytes.agrees i (by omega)
  rw [onward?_of_lt _ (by omega), ← UInt64.ofNat_add, nothing] at byte
  have := List.getElem?_eq_none_iff.1 byte.symm
  omega

/-- A shorter read inside a longer one. -/
theorem read_inside (sound : s.map.Sound) (truthful : s.storage.Truthful) {position : Word}
    {want i n : Nat} (room : position.toNat + want < 0x10000000000000000) (within : i + n ≤ want)
    (there : i ≤ (s.read position want).length) :
    ((s.read position want).drop i).take n = s.read (position + .ofNat i) n := by
  have bytes := Space.read_prefix sound truthful room
  have range : position.toNat + i < 0x10000000000000000 := by omega
  have inner : LongestPrefix (onward? s.byteAt? (position + .ofNat i)) n
      (s.read (position + .ofNat i) n) :=
    Space.read_prefix sound truthful (by rw [Word.toNat_add_ofNat range]; omega)
  refine LongestPrefix.unique ?_ inner
  have size : (((s.read position want).drop i).take n).length =
      min n ((s.read position want).length - i) := by
    rw [List.length_take, List.length_drop]
  constructor
  · omega
  · intro j inside
    rw [← onward?_add _ range, bytes.agrees (i + j) (by omega), List.getElem?_take_of_lt (by omega),
      List.getElem?_drop]
  · intro short
    have ends := bytes.ends (by omega)
    rw [← onward?_add _ range, size]
    rwa [show i + min n ((s.read position want).length - i) = (s.read position want).length by
      omega]

/-- What a chunk shows of one of its places. -/
theorem hitAt?_chunk (sound : s.map.Sound) (truthful : s.storage.Truthful) {position : Word}
    {want i : Nat} (before : position.toNat + want ≤ stop.toNat)
    (there : i < (s.read position want).length)
    (whole : i + pattern.length ≤ want ∨ (s.read position want).length < want ∨
      position.toNat + want = stop.toNat) :
    hitAt? s caseSensitive pattern stop (position.toNat + i) =
      if Matches caseSensitive pattern (((s.read position want).drop i).take pattern.length) then
        some ⟨position + .ofNat i, .data (((s.read position want).drop i).take pattern.length),
          none⟩
      else none := by
  have := stop.toNat_lt
  have bytes : LongestPrefix (onward? s.byteAt? position) want (s.read position want) :=
    Space.read_prefix sound truthful (by omega)
  have := bytes.bounded
  have place : UInt64.ofNat (position.toNat + i) = position + .ofNat i := by
    rw [UInt64.ofNat_add, UInt64.ofNat_toNat]
  by_cases inside : i + pattern.length ≤ want
  · rw [read_inside sound truthful (by omega) inside (by omega)]
    simp only [hitAt?, place]
    by_cases here : Matches caseSensitive pattern (s.read (position + .ofNat i) pattern.length)
    · rw [if_pos ⟨by omega, here⟩, if_pos here]
    · rw [if_neg (fun hit => here hit.2), if_neg here]
  · have short : ¬ Matches caseSensitive pattern
        (((s.read position want).drop i).take pattern.length) := by
      intro here
      have := here.length_eq
      rw [List.length_take, List.length_drop] at this
      omega
    rw [if_neg short]
    rcases whole with inside' | ends | last
    · exact absurd inside' inside
    · have nothing := bytes.ends ends
      rw [onward?_of_lt _ (by omega)] at nothing
      refine hitAt?_none sound truthful
        (show (s.read position want).length - i < pattern.length by omega) ?_
      rw [← nothing, show position.toNat + i + ((s.read position want).length - i) =
        position.toNat + (s.read position want).length by omega, UInt64.ofNat_add,
        UInt64.ofNat_toNat]
    · exact if_neg fun hit => by omega

theorem chunkMatches_eq (sound : s.map.Sound) (truthful : s.storage.Truthful) {position : Word}
    {want advance : Nat} (before : position.toNat + want ≤ stop.toNat)
    (own : advance ≤ (s.read position want).length)
    (whole : advance + (pattern.length - 1) ≤ want ∨ (s.read position want).length < want ∨
      position.toNat + want = stop.toNat) :
    chunkMatches pattern caseSensitive position (s.read position want) advance =
      hits s caseSensitive pattern stop position.toNat (position.toNat + advance) := by
  generalize size_eq : (s.read position want).length = size at own whole
  have parts : List.range' 0 size =
      List.range' 0 advance ++ List.range' advance (size - advance) := by
    conv_lhs => rw [show size = advance + (size - advance) by omega]
    rw [← List.range'_append_1, Nat.zero_add]
  have early {p : Nat → Bool} : ∀ i ∈ (List.range' 0 advance).filter p,
      decide (i < advance) = true := by
    intro i member
    have := List.mem_range'_1.1 (List.mem_filter.1 member).1
    exact decide_eq_true (by omega)
  have late {p : Nat → Bool} :
      ((List.range' advance (size - advance)).filter p).takeWhile
        (fun i => decide (i < advance)) = [] := by
    cases found : (List.range' advance (size - advance)).filter p with
    | nil => rfl
    | cons i rest =>
      have member : i ∈ (List.range' advance (size - advance)).filter p :=
        found ▸ List.mem_cons_self
      have := List.mem_range'_1.1 (List.mem_filter.1 member).1
      exact List.takeWhile_cons_of_neg (by simp; omega)
  unfold chunkMatches hits
  rw [occurrences_eq, length_fold, size_eq, parts, List.filter_append,
    List.takeWhile_append_of_pos early, late, List.append_nil, Nat.add_sub_cancel_left,
    ← List.filterMap_eq_map, List.filterMap_filter, ← Nat.add_zero position.toNat,
    ← List.map_add_range', List.filterMap_map]
  refine List.filterMap_congr fun i member => ?_
  have := List.mem_range'_1.1 member
  have chunk : hitAt? s caseSensitive pattern stop (position.toNat + i) = _ :=
    hitAt?_chunk sound truthful before (by omega) (by omega)
  simp only [Function.comp, chunk, Nat.sub_zero, isPrefixOf_iff]

end Search

end BinaryAtlas
