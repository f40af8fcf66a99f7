import BinaryAtlas.Proofs.Listing.Walking
import BinaryAtlas.Proofs.Search.Places

/-!
Searching for bytes. However a search divides what it reads, it tells of each place where the
pattern stands once, in ascending order, until its watcher ends it.
-/

set_option autoImplicit false

namespace BinaryAtlas

namespace Search

variable {σ : Type} {watcher : SearchWatcher σ} {log : σ → List SearchMatch} {limit : Option Nat}

/-- The watcher has a list of the matches it was told of, and ends the search when there are as many
as the limit says. Progress it takes note of at most. -/
structure Collects (watcher : SearchWatcher σ) (log : σ → List SearchMatch) (limit : Option Nat) :
    Prop where
  told : ∀ m state, log (watcher.onMatch m state).1 = log state ++ [m]
  more : ∀ m state,
    (watcher.onMatch m state).2 = decide (limit ≠ some ((log state).length + 1))
  progressed : ∀ done total state, log (watcher.onProgress done total state).1 = log state
  patient : ∀ done total state, (watcher.onProgress done total state).2 = true

theorem keepMatches_collects (limit : Option Nat) : Collects (Space.keepMatches limit) id limit :=
  ⟨fun _ _ => rfl, fun _ _ => rfl, fun _ _ _ => rfl, fun _ _ _ => rfl⟩

/-- The first of the matches, up to the limit if there is one. -/
def upTo (limit : Option Nat) (matches_ : List SearchMatch) : List SearchMatch :=
  match limit with
  | some (k + 1) => matches_.take (k + 1)
  | _ => matches_

/-- So many matches do not end the search. -/
def Room (limit : Option Nat) (count : Nat) : Prop := ∀ k, limit = some (k + 1) → count ≤ k

theorem upTo_of_room {found : List SearchMatch} (room : Room limit found.length) :
    upTo limit found = found := by
  unfold upTo
  split
  · exact List.take_of_length_le (Nat.le_succ_of_le (room _ rfl))
  · rfl

theorem upTo_of_no_room {found : List SearchMatch} (full : ¬ Room limit found.length)
    (later : List SearchMatch) : upTo limit (found ++ later) = upTo limit found := by
  obtain ⟨k, full⟩ := not_forall.1 full
  obtain ⟨rfl, many⟩ := Classical.not_imp.1 full
  exact List.take_append_of_le_length (Nat.not_le.1 many)

theorem tellMatches_eq (collects : Collects watcher log limit) (found : List SearchMatch)
    (state : σ) (room : Room limit (log state).length) :
    log (tellMatches watcher found state).1 = upTo limit (log state ++ found) ∧
      ((tellMatches watcher found state).2 = true ↔ Room limit (log state ++ found).length) := by
  induction found generalizing state with
  | nil => simp [tellMatches, upTo_of_room room, room]
  | cons m rest ih =>
    have told := collects.told m state
    have more := collects.more m state
    have together : log state ++ m :: rest = (log state ++ [m]) ++ rest := by simp
    rw [tellMatches, together]
    cases answer : watcher.onMatch m state with
    | mk after goes =>
      rw [answer] at told more
      cases goes with
      | false =>
        have last : limit = some ((log state).length + 1) := by simpa using more
        constructor
        · rw [last, told, upTo, List.take_left' (by simp)]
        · simp only [Bool.false_eq_true, false_iff]
          intro room
          have := room _ last
          simp only [List.length_append, List.length_singleton] at this
          omega
      | true =>
        have other : limit ≠ some ((log state).length + 1) := by simpa using more
        have room' : Room limit (log after).length := by
          intro k full
          have := room k full
          have : k ≠ (log state).length := fun same => other (same ▸ full)
          rw [told, List.length_append, List.length_singleton]
          omega
        rw [← told]
        exact ih after room'

/-- Telling of matches ends the search at the last one there is room for, or leaves room. -/
theorem tellMatches_cases (collects : Collects watcher log limit) (here : List SearchMatch)
    (state : σ) (room : Room limit (log state).length) :
    ((tellMatches watcher here state).2 = false ∧ here ≠ [] ∧ ∀ later,
        log (tellMatches watcher here state).1 = upTo limit (log state ++ (here ++ later))) ∨
      (tellMatches watcher here state).2 = true ∧
        log (tellMatches watcher here state).1 = log state ++ here ∧
        Room limit (log state ++ here).length := by
  obtain ⟨kept, goes⟩ := tellMatches_eq collects here state room
  by_cases more : Room limit (log state ++ here).length
  · exact .inr ⟨goes.2 more, kept.trans (upTo_of_room more), more⟩
  · refine .inl ⟨by simpa using mt goes.1 more, ?_, fun later => ?_⟩
    · rintro rfl
      exact more (by rwa [List.append_nil])
    · rw [← List.append_assoc]
      exact kept.trans (upTo_of_no_room more later).symm

theorem report_eq (collects : Collects watcher log limit) (meter : ProgressMeter) (position : Word)
    (state : σ) : log (meter.report watcher position state).2.1 = log state ∧
      (meter.report watcher position state).2.2 = true := by
  unfold ProgressMeter.report
  split
  · exact ⟨collects.progressed _ _ state, collects.patient _ _ state⟩
  · exact ⟨rfl, rfl⟩

section Scanning

variable {s : Space} {caseSensitive : Bool} {pattern : List UInt8} {stop : Word}

theorem hits_of_invalid (sound : s.map.Sound) (truthful : s.storage.Truthful)
    (nonempty : pattern ≠ []) {lo hi : Nat} (room : hi ≤ stop.toNat)
    (invalid : ∀ a : Word, lo ≤ a.toNat → a.toNat < hi → s.isValid a = false) :
    hits s caseSensitive pattern stop lo hi = [] := by
  refine hits_eq_nil fun x from_lo below => ?_
  have := stop.toNat_lt
  have place : (UInt64.ofNat x).toNat = x := UInt64.toNat_ofNat_of_lt'
    (show x < 0x10000000000000000 by omega)
  refine hitAt?_none sound truthful (List.length_pos_iff.2 nonempty) ?_
  rw [Nat.add_zero]
  refine Space.byteAt?_of_invalid (invalid _ (by omega) (by omega)) ?_
  rw [UInt64.lt_iff_toNat_lt, Word.toNat_top]
  omega

variable (caseSensitive stop) in
/-- Nothing is missed on the way to the next valid address. -/
theorem hits_nextValid (sound : s.map.Sound) (truthful : s.storage.Truthful)
    (nonempty : pattern ≠ []) (position : Word) :
    if stop ≤ s.nextValid position ∨ s.isValid (s.nextValid position) = false then
      hits s caseSensitive pattern stop position.toNat stop.toNat = []
    else
      position ≤ s.nextValid position ∧
        hits s caseSensitive pattern stop position.toNat stop.toNat =
          hits s caseSensitive pattern stop (s.nextValid position).toNat stop.toNat := by
  have least := Space.nextValid?_least sound position
  simp only [Listing.nextValid?] at least
  split at least
  · rename_i found
    simp only [Bool.and_eq_true] at found
    have before {a : Word} (from_position : position.toNat ≤ a.toNat)
        (below : a < s.nextValid position) : s.isValid a = false := by
      rw [← Bool.not_eq_true]
      intro valid
      exact UInt64.not_le.2 below (least.2 a ⟨UInt64.le_iff_toNat_le.2 from_position, valid⟩)
    have ahead := UInt64.le_iff_toNat_le.1 least.1.1
    split
    · rename_i beyond
      have past : stop ≤ s.nextValid position := beyond.resolve_right (by simp [found.2])
      refine hits_of_invalid sound truthful nonempty (Nat.le_refl _) fun a from_position below => ?_
      exact before from_position (Std.lt_of_lt_of_le (UInt64.lt_iff_toNat_lt.2 below) past)
    · rename_i inside
      have inside := UInt64.lt_iff_toNat_lt.1 (UInt64.not_le.1 fun past => inside (.inl past))
      refine ⟨least.1.1, ?_⟩
      rw [hits_append ahead (Nat.le_of_lt inside), hits_of_invalid sound truthful nonempty
        (Nat.le_of_lt inside) fun a from_position below =>
          before from_position (UInt64.lt_iff_toNat_lt.2 below), List.nil_append]
  · rename_i nothing
    have beyond : s.isValid (s.nextValid position) = false := by
      rw [← Bool.not_eq_true]
      intro valid
      exact nothing (by simp [valid, Space.lt_stop valid])
    rw [if_pos (.inr beyond)]
    refine hits_of_invalid sound truthful nonempty (Nat.le_refl _) fun a from_position _ => ?_
    rw [← Bool.not_eq_true]
    exact fun valid => least a ⟨UInt64.le_iff_toNat_le.2 from_position, valid⟩

theorem toNat_want {position chunk : Word} (before : position < stop) :
    (min (stop - position) chunk).toNat = min (stop.toNat - position.toNat) chunk.toNat := by
  rw [Word.toNat_min, UInt64.toNat_sub_of_le _ _ (UInt64.le_of_lt before)]

/-- An address that is read in vain begins no match. -/
theorem hits_of_empty (sound : s.map.Sound) (truthful : s.storage.Truthful)
    (nonempty : pattern ≠ []) {position : Word} {want : Nat} (wanted : 0 < want)
    (room : position.toNat + want < 0x10000000000000000) (empty : s.read position want = []) :
    hits s caseSensitive pattern stop position.toNat (position.toNat + 1) = [] := by
  have nothing : s.byteAt? position = none := by
    have bytes := Space.read_prefix sound truthful room
    rw [empty] at bytes
    exact (onward?_zero _ position).symm.trans (bytes.ends wanted)
  refine hits_eq_nil fun x from_here below => ?_
  obtain rfl : x = position.toNat := by omega
  refine hitAt?_none sound truthful (List.length_pos_iff.2 nonempty) ?_
  rwa [Nat.add_zero, UInt64.ofNat_toNat]

/-- How much of a chunk is its own part: something, and no more than was read. A match that begins
there is read whole, unless a gap or the end of the range comes first. -/
theorem chunk_advance (nonempty : pattern ≠ []) {chunk position want : Word} {advance : Nat}
    (wide : min (pattern.length * 2) 0xffffffffffffffff ≤ chunk.toNat) (before : position < stop)
    (want_eq : want = min (stop - position) chunk) (some_ : s.read position want.toNat ≠ [])
    (advance_eq : advance = if (s.read position want.toNat).length == want.toNat &&
        decide (position + want < stop) then
      (s.read position want.toNat).length - (pattern.length - 1)
    else (s.read position want.toNat).length) :
    0 < advance ∧ position.toNat + advance ≤ stop.toNat ∧
      advance ≤ (s.read position want.toNat).length ∧
      (advance + (pattern.length - 1) ≤ want.toNat ∨
        (s.read position want.toNat).length < want.toNat ∨
        position.toNat + want.toNat = stop.toNat) := by
  have want_toNat : want.toNat = min (stop.toNat - position.toNat) chunk.toNat :=
    want_eq ▸ toNat_want before
  have before := UInt64.lt_iff_toNat_lt.1 before
  have := stop.toNat_lt
  have pattern_pos := List.length_pos_iff.2 nonempty
  have bytes_pos := List.length_pos_iff.2 some_
  have bounded := s.length_read_le position want.toNat
  have range : (position + want).toNat = position.toNat + want.toNat := by
    rw [UInt64.toNat_add]
    omega
  simp only [Bool.and_eq_true, beq_iff_eq, decide_eq_true_eq, UInt64.lt_iff_toNat_lt,
    range] at advance_eq
  split at advance_eq <;> omega

variable (caseSensitive) in
/-- A chunk shows the places of its own part. -/
theorem chunk_hits (sound : s.map.Sound) (truthful : s.storage.Truthful) (nonempty : pattern ≠ [])
    {chunk position want : Word} {advance : Nat}
    (wide : min (pattern.length * 2) 0xffffffffffffffff ≤ chunk.toNat) (before : position < stop)
    (want_eq : want = min (stop - position) chunk) (some_ : s.read position want.toNat ≠ [])
    (advance_eq : advance = if (s.read position want.toNat).length == want.toNat &&
        decide (position + want < stop) then
      (s.read position want.toNat).length - (pattern.length - 1)
    else (s.read position want.toNat).length) :
    0 < advance ∧ position.toNat + advance ≤ stop.toNat ∧
      chunkMatches pattern caseSensitive position (s.read position want.toNat) advance =
        hits s caseSensitive pattern stop position.toNat (position.toNat + advance) := by
  obtain ⟨positive, within, short, own⟩ :=
    chunk_advance nonempty wide before want_eq some_ advance_eq
  have room : position.toNat + want.toNat ≤ stop.toNat := by
    rw [want_eq, toNat_want before]
    have := UInt64.lt_iff_toNat_lt.1 before
    omega
  exact ⟨positive, within, chunkMatches_eq sound truthful room short own⟩

variable (caseSensitive stop) in
theorem scanData_eq (sound : s.map.Sound) (truthful : s.storage.Truthful)
    (nonempty : pattern ≠ []) (collects : Collects watcher log limit) {chunk : Word}
    (wide : min (pattern.length * 2) 0xffffffffffffffff ≤ chunk.toNat) (fuel : Nat)
    (position : Word) (meter : ProgressMeter) (found : Bool) (state : σ)
    (enough : stop.toNat - position.toNat < fuel) (room : Room limit (log state).length) :
    (scanData s pattern caseSensitive stop watcher chunk fuel position meter found state).1 =
        (found || !(hits s caseSensitive pattern stop position.toNat stop.toNat).isEmpty) ∧
      log (scanData s pattern caseSensitive stop watcher chunk fuel position meter found state).2 =
        upTo limit (log state ++ hits s caseSensitive pattern stop position.toNat stop.toNat) := by
  induction fuel generalizing position meter found state with
  | zero => omega
  | succ fuel ih =>
    have skip := hits_nextValid caseSensitive stop sound truthful nonempty position
    rw [scanData]
    generalize s.nextValid position = next at skip
    simp only [Bool.or_eq_true, decide_eq_true_eq, Bool.not_eq_true']
    split at skip
    · rename_i beyond
      rw [if_pos beyond, skip, List.append_nil, upTo_of_room room]
      exact ⟨by simp, (report_eq collects meter stop state).1⟩
    · rename_i inside
      obtain ⟨ahead, skip⟩ := skip
      rw [if_neg inside, skip]
      have before : next < stop := UInt64.not_le.1 fun past => inside (.inl past)
      have ahead := UInt64.le_iff_toNat_le.1 ahead
      have below := UInt64.lt_iff_toNat_lt.1 before
      have := stop.toNat_lt
      generalize want_eq : min (stop - next) chunk = want
      split
      · rename_i empty
        rw [List.isEmpty_iff] at empty
        have one : (next + 1).toNat = next.toNat + 1 :=
          Word.toNat_add_ofNat (i := 1) (by omega)
        have wanted : 0 < want.toNat := by
          have pattern_pos := List.length_pos_iff.2 nonempty
          rw [← want_eq, toNat_want before]
          omega
        have room' : next.toNat + want.toNat < 0x10000000000000000 := by
          rw [← want_eq, toNat_want before]
          omega
        rw [hits_append (Nat.le_succ next.toNat) below,
          hits_of_empty sound truthful nonempty wanted room' empty, List.nil_append,
          Nat.succ_eq_add_one, ← one]
        exact ih (next + 1) meter found state (by omega) room
      · rename_i some_
        rw [List.isEmpty_iff] at some_
        generalize advance_eq : (if (s.read next want.toNat).length == want.toNat &&
            decide (next + want < stop) then
          (s.read next want.toNat).length - (pattern.length - 1)
        else (s.read next want.toNat).length) = advance
        obtain ⟨positive, within, chunk_eq⟩ := chunk_hits caseSensitive sound truthful nonempty
          wide before want_eq.symm some_ advance_eq.symm
        have after : (next + .ofNat advance).toNat = next.toNat + advance :=
          Word.toNat_add_ofNat (by omega)
        rw [hits_append (Nat.le_add_right _ advance) within, chunk_eq]
        generalize hits s caseSensitive pattern stop next.toNat (next.toNat + advance) = here
        have tells := tellMatches_cases collects here state room
        cases told : tellMatches watcher here state with
        | mk state' goes =>
          rw [told] at tells
          rcases tells with ⟨rfl, hit, full⟩ | ⟨rfl, kept, more⟩
          · exact ⟨by simp [hit], full _⟩
          · have reports := report_eq collects meter (next + .ofNat advance) state'
            simp only
            cases reported : meter.report watcher (next + .ofNat advance) state' with
            | mk meter' answer =>
              obtain ⟨state'', goes⟩ := answer
              rw [reported] at reports
              obtain ⟨same, rfl⟩ := reports
              simp only at kept same ⊢
              rw [← List.append_assoc, ← kept, ← same, ← after]
              refine (ih (next + .ofNat advance) meter' _ state'' (by omega) ?_).imp_left
                fun answer => answer.trans ?_
              · rwa [same, kept]
              · cases here <;> simp

end Scanning

end Search

namespace Space

open Search

variable {s : Space} {pattern : List UInt8}

/-- The pattern stands at the address, and ends in time. -/
def Occurs (s : Space) (start stop : Word) (pattern : List UInt8) (caseSensitive : Bool) (a : Word) :
    Prop :=
  start ≤ a ∧ a.toNat + pattern.length ≤ stop.toNat ∧
    Matches caseSensitive pattern (s.read a pattern.length)

/-- A search tells of each place where the pattern stands once and in ascending order, with the
bytes that were found, until it is ended. It answers whether there is such a place. -/
def FindsExactly (s : Space) (start stop : Word) (pattern : List UInt8) (caseSensitive : Bool) :
    Prop :=
  ∃ found : List SearchMatch, found.Pairwise (fun m m' => m.address < m'.address) ∧
    (∀ m, m ∈ found ↔ Occurs s start stop pattern caseSensitive m.address ∧
      m.value = .data (s.read m.address pattern.length) ∧ m.line = none) ∧
    ∀ (σ : Type) (watcher : SearchWatcher σ) (log : σ → List SearchMatch) (limit : Option Nat)
      (state : σ), Collects watcher log limit → log state = [] →
      (s.findData start stop pattern caseSensitive watcher state).1 = !found.isEmpty ∧
      log (s.findData start stop pattern caseSensitive watcher state).2 = upTo limit found

theorem finds_exactly (sound : s.map.Sound) (truthful : s.storage.Truthful)
    (nonempty : pattern ≠ []) (start stop : Word) (caseSensitive : Bool) :
    FindsExactly s start stop pattern caseSensitive := by
  have bound := stop.toNat_lt
  have room : stop.toNat ≤ 0x10000000000000000 := Nat.le_of_lt bound
  have pattern_pos := List.length_pos_iff.2 nonempty
  refine ⟨hits s caseSensitive pattern stop start.toNat stop.toNat, hits_ascending room,
    fun m => ?_, fun σ watcher log limit state collects clear => ?_⟩
  · rw [mem_hits_iff room, Occurs, UInt64.le_iff_toNat_le]
    constructor
    · rintro ⟨from_start, -, within, here, rest⟩
      exact ⟨⟨from_start, within, here⟩, rest⟩
    · rintro ⟨⟨from_start, within, here⟩, rest⟩
      exact ⟨from_start, by omega, within, here, rest⟩
  · unfold findData
    split
    · rename_i nothing
      have beyond : stop ≤ start := by simpa [nonempty] using nothing
      have none : hits s caseSensitive pattern stop start.toNat stop.toNat = [] :=
        hits_eq_nil fun x from_start below => by
          have := UInt64.le_iff_toNat_le.1 beyond
          omega
      rw [none]
      exact ⟨rfl, clear.trans (upTo_of_room fun _ _ => Nat.zero_le _).symm⟩
    · rename_i some_
      simp only [Bool.or_eq_true, decide_eq_true_eq, not_or, UInt64.not_le] at some_
      have size := UInt64.toNat_sub_of_le _ _ (UInt64.le_of_lt some_.2)
      have wide : min (pattern.length * 2) 0xffffffffffffffff ≤
          (max s.config.search.chunkSize (.ofNatCapped (pattern.length * 2))).toNat := by
        rw [Word.toNat_max, Word.toNat_ofNatCapped]
        omega
      have answer := scanData_eq caseSensitive stop sound truthful nonempty collects wide
        ((stop - start).toNat + 1) start
        (.ofRange start stop s.config.search.progressGranularity) false state (by omega)
        (by rw [clear]; exact fun _ _ => Nat.zero_le _)
      rwa [clear, List.nil_append, Bool.false_or] at answer

/-- Looking for the next place ends with the first of those that a search would tell of. -/
theorem findNext_least {start : Word} {caseSensitive : Bool}
    (finds : FindsExactly s start s.stop pattern caseSensitive) (settings : ListingSettings) :
    Word.Least (Occurs s start s.stop pattern caseSensitive)
      (s.findNext start (.data pattern) settings caseSensitive) := by
  obtain ⟨found, ascending, told, answers⟩ := finds
  have kept : ((s.findData start s.stop pattern caseSensitive (keepMatches (some 1)) []).2) =
      found.take 1 := (answers _ _ id (some 1) [] (keepMatches_collects _) rfl).2
  have next : s.findNext start (.data pattern) settings caseSensitive =
      found.head?.map (·.address) := by
    rw [findNext, find, kept, List.head?_take, if_neg Nat.one_ne_zero]
  have wanted {a : Word} : Occurs s start s.stop pattern caseSensitive a →
      ∃ m ∈ found, m.address = a := fun occurs =>
    ⟨⟨a, .data (s.read a pattern.length), none⟩, (told _).2 ⟨occurs, rfl, rfl⟩, rfl⟩
  rw [next]
  cases found with
  | nil =>
    intro a occurs
    obtain ⟨m, member, -⟩ := wanted occurs
    cases member
  | cons first rest =>
    refine ⟨((told first).1 List.mem_cons_self).1, fun a occurs => ?_⟩
    obtain ⟨m, member, rfl⟩ := wanted occurs
    rcases List.mem_cons.1 member with rfl | later
    · exact UInt64.le_refl _
    · exact UInt64.le_of_lt ((List.pairwise_cons.1 ascending).1 m later)

/-- The segments are nested, and the last bytes have nothing in the storage. Each chunk has four
bytes. -/
def chunkedSpace : Space :=
  { ListingCursor.listedSpace with config := { search := { chunkSize := 3 } } }

end Space

end BinaryAtlas
