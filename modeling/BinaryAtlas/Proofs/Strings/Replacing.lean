import BinaryAtlas.Proofs.Mirror.Groups
import BinaryAtlas.Proofs.Strings.Windows

/-!
What a search for strings makes of those that are known, and what it tells of that. Where ranges
overlap, the one that is searched last has its way.
-/

set_option autoImplicit false

namespace BinaryAtlas

def Notice.change? : Notice → Option ChangeEvent
  | changed event => some event
  | completed _ => none

namespace Op

variable {α β : Type}

/-- The changes that an operation tells of while those who listen only take note. -/
def changes (op : Op α) (s : Space) : List ChangeEvent := (op s).collect.1.filterMap Notice.change?

theorem changes_bind (op : Op α) (next : α → Op β) (s : Space) :
    (op >>= next).changes s =
      op.changes s ++ (next (op s).collect.2.1).changes (op s).collect.2.2 := by
  have whole : ((op >>= next) s).collect = _ := Run.collect_bind (op s) next
  rw [changes, whole, List.filterMap_append]
  rfl

theorem changes_read_bind (f : Space → α) (next : α → Op β) (s : Space) :
    (Op.read f >>= next).changes s = (next (f s)).changes s :=
  rfl

theorem changes_update_bind (f : Space → Space × α) (next : α → Op β) (s : Space) :
    (Op.update f >>= next).changes s = (next (f s).2).changes (f s).1 :=
  rfl

theorem filterMap_change?_changed (events : List ChangeEvent) :
    (events.map Notice.changed).filterMap Notice.change? = events := by
  rw [List.filterMap_map]
  exact List.filterMap_some

theorem changes_forEach_eq_nil (invariant : Space → Prop) {act : α → Op Unit} {items : List α}
    (each : ∀ a ∈ items, ∀ s, invariant s →
      (act a).changes s = [] ∧ invariant ((act a) s).collect.2.2) {s : Space}
    (initial : invariant s) : (forEach act items).changes s = [] := by
  induction items generalizing s with
  | nil => rfl
  | cons first rest ih =>
    obtain ⟨silent, kept⟩ := each first List.mem_cons_self s initial
    rw [forEach, changes_bind, silent, List.nil_append]
    exact ih (fun a member => each a (List.mem_cons_of_mem first member)) kept

end Op

namespace ChangeEvent

variable {event : ChangeEvent} {a : Word}

/-- The event tells of a string that begins at an address. -/
def IsOfString (event : ChangeEvent) (a : Word) : Prop :=
  ∃ string : StringReference, string.start = a ∧
    (event = .stringFound string ∨ event = .stringRemoved string)

theorem IsOfString.plain (of : event.IsOfString a) : event.isAboutSymbol = false := by
  obtain ⟨string, -, rfl | rfl⟩ := of <;> rfl

end ChangeEvent

/-- A range that is searched, and the strings that are found for it, no two at one place. -/
structure Sweep where
  range : AddressRange
  found : List StringReference
  distinct : found.Pairwise fun s t => s.start ≠ t.start

namespace Sweep

variable (w : Sweep) {known : Table Word StringReference} {a : Word} {string : StringReference}

def at? (a : Word) : Option StringReference := w.found.find? (·.start == a)

theorem at?_eq_some_iff : w.at? a = some string ↔ string ∈ w.found ∧ string.start = a := by
  unfold at?
  constructor
  · intro found
    exact ⟨List.mem_of_find?_eq_some found, by simpa using List.find?_some found⟩
  · rintro ⟨member, rfl⟩
    obtain ⟨front, back, whole⟩ := List.append_of_mem member
    have distinct := w.distinct
    rw [whole, List.pairwise_append] at distinct
    refine List.find?_eq_some_iff_append.2 ⟨by simp, front, back, whole, fun other earlier => ?_⟩
    simpa using distinct.2.2 other earlier string List.mem_cons_self

/-- The known strings that are not found again. -/
def stale (known : Table Word StringReference) : List StringReference :=
  ((known.between w.range.start w.range.stop).map (·.2)).filter (!w.found.contains ·)

/-- The strings found that are not known. -/
def fresh (known : Table Word StringReference) : List StringReference :=
  w.found.filter fun string =>
    w.range.contains string.start && known.get? string.start != some string

/-- What was known without what is not found again. -/
def kept (known : Table Word StringReference) : Table Word StringReference :=
  (w.stale known).foldl (fun t string => t.erase string.start) known

/-- One of the strings found is taken over. -/
def put (known : Table Word StringReference × List ChangeEvent) (string : StringReference) :
    Table Word StringReference × List ChangeEvent :=
  let (table, events) := known
  if !w.range.contains string.start || table.get? string.start == some string then known
  else
    let gone := (table.get? string.start).toList.map ChangeEvent.stringRemoved
    (table.insert string.start string, events ++ gone ++ [.stringFound string])

/-- What is known after the search, and the changes to tell of. -/
def renew (known : Table Word StringReference) : Table Word StringReference × List ChangeEvent :=
  w.found.foldl w.put (w.kept known, (w.stale known).map .stringRemoved)

/-- One search after the other. -/
def renewAll : List Sweep → Table Word StringReference →
    Table Word StringReference × List ChangeEvent
  | [], known => (known, [])
  | w :: rest, known =>
    let (renewed, events) := w.renew known
    let (last, later) := renewAll rest renewed
    (last, events ++ later)

/-- Strings found at different places are put where nothing else is, so nothing is replaced. -/
theorem foldl_put {strings : List StringReference}
    (distinct : strings.Pairwise fun s t => s.start ≠ t.start)
    {table : Table Word StringReference} (vacant : ∀ string ∈ strings, ∀ other,
      w.range.contains string.start = true → table.get? string.start = some other →
        other = string) (events : List ChangeEvent) :
    strings.foldl w.put (table, events) =
      ((strings.filter (w.range.contains ·.start)).foldl
          (fun t string => t.insert string.start string) table,
        events ++ (strings.filter fun string => w.range.contains string.start &&
          table.get? string.start != some string).map .stringFound) := by
  induction strings generalizing table events with
  | nil => simp
  | cons first rest ih =>
    rw [List.pairwise_cons] at distinct
    obtain ⟨apart, distinct⟩ := distinct
    have later (string : StringReference) (member : string ∈ rest) :=
      vacant string (List.mem_cons_of_mem first member)
    rw [List.foldl_cons]
    cases inside : w.range.contains first.start with
    | false =>
      have step : w.put (table, events) first = (table, events) := by simp [put, inside]
      rw [step, ih distinct later events]
      simp [inside]
    | true =>
      cases held : table.get? first.start with
      | some other =>
        obtain rfl := vacant first List.mem_cons_self other inside held
        have step : w.put (table, events) other = (table, events) := by simp [put, held]
        have same : table.insert other.start other = table := Table.alter_same held
        rw [step, ih distinct later events]
        simp [inside, held, same]
      | none =>
        -- What is put first is in nobody's way, as the others begin elsewhere.
        have elsewhere (string : StringReference) (member : string ∈ rest) :
            (table.insert first.start first).get? string.start = table.get? string.start :=
          Table.get?_insert_of_ne table first (apart string member).symm
        have filtered : (rest.filter fun string => w.range.contains string.start &&
            (table.insert first.start first).get? string.start != some string) =
            rest.filter fun string => w.range.contains string.start &&
              table.get? string.start != some string :=
          List.filter_congr fun string member => by rw [elsewhere string member]
        have step : w.put (table, events) first =
            (table.insert first.start first, events ++ [.stringFound first]) := by
          simp [put, inside, held]
        rw [step, ih distinct (fun string member other within there => later string member other
          within (by rwa [elsewhere string member] at there)), filtered]
        simp [inside, held]

theorem fresh_nodup : (w.fresh known).Nodup :=
  (w.distinct.imp fun apart same => apart (congrArg _ same)).filter _

section Filed

variable {sweeps : List Sweep} (filed : known.FiledBy (·.start))

include filed

theorem mem_stale : string ∈ w.stale known ↔
    known.get? string.start = some string ∧ w.range.contains string.start = true ∧
      string ∉ w.found := by
  simp only [stale, List.mem_filter, List.mem_map, Prod.exists, exists_eq_right,
    Table.mem_between_iff, AddressRange.contains_iff, Bool.not_eq_true', List.contains_eq_mem,
    decide_eq_false_iff_not]
  constructor
  · rintro ⟨⟨key, held, inside⟩, lost⟩
    obtain rfl := filed held
    exact ⟨held, inside, lost⟩
  · rintro ⟨held, inside, lost⟩
    exact ⟨⟨_, held, inside⟩, lost⟩

theorem stale_nodup : (w.stale known).Nodup := by
  have distinct : (known.values.map (·.start)).Nodup :=
    Table.values_map_nodup fun {key key' t u} held held' same =>
      (filed held).symm.trans (same.trans (filed held'))
  have among : (w.stale known).Sublist known.values :=
    List.filter_sublist.trans (List.filter_sublist.map _)
  exact distinct.of_map.sublist among

theorem get?_kept_eq_some_iff : (w.kept known).get? a = some string ↔
    known.get? a = some string ∧ (w.range.contains a = true → string ∈ w.found) := by
  by_cases lost : ∃ other ∈ w.stale known, other.start = a
  · have gone : (w.kept known).get? a = none := Table.get?_foldl_erase known (.inl lost)
    rw [gone]
    -- Of the two strings under one address one is lost and the other is not.
    refine iff_of_false nofun fun ⟨held, again⟩ => ?_
    obtain ⟨other, lost, rfl⟩ := lost
    obtain ⟨there, inside, lost⟩ := (w.mem_stale filed).1 lost
    rw [held, Option.some.injEq] at there
    subst there
    exact lost (again inside)
  · have stays : (w.kept known).get? a = known.get? a :=
      Table.get?_foldl_erase_of_ne known fun other member here => lost ⟨other, member, here⟩
    rw [stays]
    refine (and_iff_left_of_imp fun held inside => ?_).symm
    obtain rfl := filed held
    by_contra missing
    exact lost ⟨string, (w.mem_stale filed).2 ⟨held, inside, missing⟩, rfl⟩

/-- A search tells of what is lost and of what is new, and of nothing else. -/
theorem renew_eq : w.renew known =
    ((w.found.filter (w.range.contains ·.start)).foldl
        (fun t string => t.insert string.start string) (w.kept known),
      (w.stale known).map .stringRemoved ++ (w.fresh known).map .stringFound) := by
  have fresh : (w.found.filter fun string => w.range.contains string.start &&
      (w.kept known).get? string.start != some string) = w.fresh known := by
    refine List.filter_congr fun string member => ?_
    have same : (w.kept known).get? string.start = some string ↔
        known.get? string.start = some string :=
      (w.get?_kept_eq_some_iff filed).trans (and_iff_left fun _ => member)
    simp only [bne, Bool.beq_eq_decide_eq, same]
  unfold renew
  rw [w.foldl_put w.distinct, fresh]
  intro string member other inside held
  obtain ⟨there, again⟩ := (w.get?_kept_eq_some_iff filed).1 held
  have other_at := w.at?_eq_some_iff.2 ⟨again inside, filed there⟩
  have string_at := w.at?_eq_some_iff.2 ⟨member, rfl⟩
  exact Option.some.inj (other_at.symm.trans string_at)

/-- In its range the strings found are those known from now on. -/
theorem get?_renew (a : Word) : (w.renew known).1.get? a =
    if w.range.contains a then w.at? a else known.get? a := by
  rw [w.renew_eq filed]
  have distinct : ((w.found.filter (w.range.contains ·.start)).map (·.start)).Nodup :=
    List.pairwise_map.2 (w.distinct.filter _)
  obtain ⟨put, elsewhere⟩ := Table.get?_foldl_insert distinct (w.kept known)
  cases inside : w.range.contains a with
  | false =>
    refine (elsewhere a fun string member here => ?_).trans ?_
    · obtain ⟨-, within⟩ := List.mem_filter.1 member
      rw [here, inside] at within
      cases within
    · ext string
      simp [w.get?_kept_eq_some_iff filed, inside]
  | true =>
    cases found : w.at? a with
    | some string =>
      obtain ⟨member, rfl⟩ := w.at?_eq_some_iff.1 found
      exact put string (List.mem_filter.2 ⟨member, inside⟩)
    | none =>
      have nothing (string : StringReference) (member : string ∈ w.found) : string.start ≠ a := by
        rintro rfl
        rw [w.at?_eq_some_iff.2 ⟨member, rfl⟩] at found
        cases found
      refine (elsewhere a fun string member =>
        nothing string (List.mem_filter.1 member).1).trans ?_
      refine Option.eq_none_iff_forall_ne_some.2 fun string held => ?_
      obtain ⟨held, again⟩ := (w.get?_kept_eq_some_iff filed).1 held
      exact nothing string (again inside) (filed held)

/-- Each change is told once, and no string is both lost and found. -/
theorem renew_nodup : (w.renew known).2.Nodup := by
  rw [w.renew_eq filed]
  refine List.nodup_append.2 ⟨?_, ?_, ?_⟩
  · exact (w.stale_nodup filed).map fun _ _ same => ChangeEvent.stringRemoved.inj same
  · exact (w.fresh_nodup).map fun _ _ same => ChangeEvent.stringFound.inj same
  · intro event lost other new same
    obtain ⟨string, -, rfl⟩ := List.mem_map.1 lost
    obtain ⟨string', -, rfl⟩ := List.mem_map.1 new
    cases same

theorem removed_mem_renew : .stringRemoved string ∈ (w.renew known).2 ↔
    known.get? string.start = some string ∧ w.range.contains string.start = true ∧
      string ∉ w.found := by
  rw [w.renew_eq filed, ← w.mem_stale filed]
  simp

theorem found_mem_renew : .stringFound string ∈ (w.renew known).2 ↔
    string ∈ w.found ∧ w.range.contains string.start = true ∧
      known.get? string.start ≠ some string := by
  rw [w.renew_eq filed]
  simp [fresh]

theorem renew_filed : (w.renew known).1.FiledBy (·.start) := by
  intro a string held
  rw [w.get?_renew filed] at held
  split at held
  · exact (w.at?_eq_some_iff.1 held).2
  · exact filed held

theorem isOfString_of_renew {event : ChangeEvent}
    (told : event ∈ (w.renew known).2) : ∃ a, event.IsOfString a := by
  rw [w.renew_eq filed] at told
  rcases List.mem_append.1 told with lost | new
  · obtain ⟨string, -, rfl⟩ := List.mem_map.1 lost
    exact ⟨string.start, string, rfl, .inr rfl⟩
  · obtain ⟨string, -, rfl⟩ := List.mem_map.1 new
    exact ⟨string.start, string, rfl, .inl rfl⟩

/-- A search tells of a string at an address if it is not the one known there. -/
theorem tells_renew_iff :
    (∃ event ∈ (w.renew known).2, event.IsOfString a) ↔
      w.range.contains a = true ∧ w.at? a ≠ known.get? a := by
  rw [w.renew_eq filed]
  constructor
  · rintro ⟨event, told, string, rfl, of⟩
    rcases List.mem_append.1 told with lost | new
    · obtain ⟨other, member, rfl⟩ := List.mem_map.1 lost
      obtain rfl : other = string := by simpa using of
      obtain ⟨held, inside, lost⟩ := (w.mem_stale filed).1 member
      refine ⟨inside, fun same => lost ?_⟩
      exact (w.at?_eq_some_iff.1 (same.trans held)).1
    · obtain ⟨other, listed, rfl⟩ := List.mem_map.1 new
      obtain rfl : other = string := by simpa using of
      obtain ⟨member, new⟩ := List.mem_filter.1 listed
      simp only [Bool.and_eq_true, bne_iff_ne] at new
      rw [w.at?_eq_some_iff.2 ⟨member, rfl⟩]
      exact ⟨new.1, new.2.symm⟩
  · rintro ⟨inside, differ⟩
    cases found : w.at? a with
    | some string =>
      obtain ⟨member, rfl⟩ := w.at?_eq_some_iff.1 found
      have new : string ∈ w.fresh known := List.mem_filter.2 ⟨member, by
        simpa [inside] using fun held => differ (found.trans held.symm)⟩
      exact ⟨_, List.mem_append_right _ (List.mem_map_of_mem new), string, rfl, .inl rfl⟩
    | none =>
      rw [found] at differ
      obtain ⟨string, held⟩ := Option.ne_none_iff_exists'.1 differ.symm
      obtain rfl := filed held
      have lost : string ∈ w.stale known := (w.mem_stale filed).2 ⟨held, inside, fun member => by
        rw [w.at?_eq_some_iff.2 ⟨member, rfl⟩] at found
        cases found⟩
      exact ⟨_, List.mem_append_left _ (List.mem_map_of_mem lost), string, rfl, .inr rfl⟩

theorem renewAll_filed : (renewAll sweeps known).1.FiledBy (·.start) := by
  induction sweeps generalizing known with
  | nil => exact filed
  | cons w rest ih => exact ih (w.renew_filed filed)

/-- At each address the last search that comes there decides. -/
theorem get?_renewAll (a : Word) : (renewAll sweeps known).1.get? a =
    match (sweeps.filter (·.range.contains a)).getLast? with
    | some w => w.at? a
    | none => known.get? a := by
  induction sweeps generalizing known with
  | nil => rfl
  | cons w rest ih =>
    show (renewAll rest (w.renew known).1).1.get? a = _
    rw [ih (w.renew_filed filed), w.get?_renew filed]
    rw [List.filter_cons]
    cases w.range.contains a with
    | true =>
      rw [if_pos rfl, if_pos rfl, List.getLast?_cons]
      cases (rest.filter (·.range.contains a)).getLast? <;> rfl
    | false => rfl

theorem isOfString_of_renewAll {event : ChangeEvent}
    (told : event ∈ (renewAll sweeps known).2) : ∃ a, event.IsOfString a := by
  induction sweeps generalizing known with
  | nil => cases told
  | cons w rest ih =>
    rcases List.mem_append.1 told with here | later
    · exact w.isOfString_of_renew filed here
    · exact ih (w.renew_filed filed) later

/-- Nothing is told of an address if every search that comes there finds what was known. -/
theorem tells_renewAll_iff :
    (∃ event ∈ (renewAll sweeps known).2, event.IsOfString a) ↔
      ∃ w ∈ sweeps, w.range.contains a = true ∧ w.at? a ≠ known.get? a := by
  induction sweeps generalizing known with
  | nil => simp [renewAll]
  | cons w rest ih =>
    have split : (∃ event ∈ (renewAll (w :: rest) known).2, event.IsOfString a) ↔
        (∃ event ∈ (w.renew known).2, event.IsOfString a) ∨
          ∃ event ∈ (renewAll rest (w.renew known).1).2, event.IsOfString a := by
      simp only [renewAll, List.mem_append, or_and_right, exists_or]
    rw [split, ih (w.renew_filed filed), w.tells_renew_iff filed, List.exists_mem_cons_iff]
    by_cases here : w.range.contains a = true ∧ w.at? a ≠ known.get? a
    · exact iff_of_true (.inl here) (.inl here)
    · -- As the first search changes nothing there, the others are up against what was known.
      have same : (w.renew known).1.get? a = known.get? a := by
        rw [w.get?_renew filed]
        split
        · rename_i inside
          by_contra differ
          exact here ⟨inside, differ⟩
        · rfl
      rw [or_iff_right here, or_iff_right here, same]

/-- The same searches once more find what is known already. -/
theorem renewAll_again :
    (renewAll sweeps (renewAll sweeps known).1).1 = (renewAll sweeps known).1 := by
  apply Table.ext_get?
  intro a
  rw [get?_renewAll (renewAll_filed filed), get?_renewAll filed]
  cases (sweeps.filter (·.range.contains a)).getLast? <;> rfl

/-- The same searches once more tell of an address only if two of them find different strings
there. -/
theorem tells_again_iff :
    (∃ event ∈ (renewAll sweeps (renewAll sweeps known).1).2, event.IsOfString a) ↔
      ∃ w ∈ sweeps, ∃ v ∈ sweeps, w.range.contains a = true ∧ v.range.contains a = true ∧
        w.at? a ≠ v.at? a := by
  rw [tells_renewAll_iff (renewAll_filed filed), get?_renewAll filed]
  cases last : (sweeps.filter (·.range.contains a)).getLast? with
  | none =>
    have nobody (w : Sweep) (member : w ∈ sweeps) : ¬ w.range.contains a = true :=
      List.filter_eq_nil_iff.1 (List.getLast?_eq_none_iff.1 last) w member
    constructor
    · exact fun ⟨w, member, inside, _⟩ => absurd inside (nobody w member)
    · exact fun ⟨w, member, _, _, inside, _⟩ => absurd inside (nobody w member)
  | some u =>
    obtain ⟨member, inside⟩ := List.mem_filter.1 (List.mem_of_getLast? last)
    -- The last search has had its way, so of two that differ one differs from what is known.
    constructor
    · exact fun ⟨w, member', inside', differ⟩ => ⟨w, member', u, member, inside', inside, differ⟩
    · rintro ⟨w, member', v, member'', inside', inside'', differ⟩
      by_cases same : w.at? a = u.at? a
      · exact ⟨v, member'', inside'', fun same' => differ (same.trans same'.symm)⟩
      · exact ⟨w, member', inside', same⟩

end Filed

end Sweep

namespace Space

open Op

section Windows

open StringScan

variable {s : Space} {first stop overlap window : Word} {least most : Nat}

/-- The windows follow each other, and so do the strings that they show. -/
theorem windowTurns_ascending (wide : 2 * overlap.toNat + 4 ≤ window.toNat) (turns : Nat)
    {position : Word} {strings : List StringReference} (behind : first.toNat ≤ position.toNat)
    (ran : windowTurns? s first stop overlap window least most turns position = some strings) :
    strings.Pairwise (fun s t => s.start < t.start) ∧
      ∀ string ∈ strings, position.toNat ≤ string.start.toNat := by
  have past {turns : Nat} {position : Word} {strings : List StringReference}
      (beyond : ¬ position < stop)
      (ran : windowTurns? s first stop overlap window least most turns position = some strings) :
      strings = [] := by
    cases turns <;> simpa [windowTurns?, beyond, eq_comm] using ran
  induction turns generalizing position strings with
  | zero =>
    by_cases before : position < stop
    · simp [windowTurns?, before] at ran
    · simp [past before ran]
  | succ turns ih =>
    by_cases before : position < stop
    · obtain ⟨origin, windowStop, want, part, reads, ⟨-, turn⟩ | ⟨ownedStop, full, owned, turn⟩⟩ :=
        windowTurns_cases wide turns behind before
      · rw [turn, Option.some.injEq] at ran
        subst ran
        exact ⟨(scan_ascending ..).filter _, fun string member => (mem_between.1 member).2.1⟩
      · rw [turn] at ran
        obtain ⟨later, ran', rfl⟩ := Option.map_eq_some_iff.1 ran
        obtain ⟨behind', -, -, near, -, -, -, reaches⟩ := reads
        obtain ⟨ascending, above⟩ := ih (by omega) ran'
        -- What a window shows begins before its own part ends, where the next one goes on.
        refine ⟨List.pairwise_append.2 ⟨(scan_ascending ..).filter _, ascending,
          fun string member other member' => ?_⟩, fun string member => ?_⟩
        · have := (mem_between.1 member).2.2
          have := above other member'
          exact UInt64.lt_iff_toNat_lt.2 (by omega)
        · rcases List.mem_append.1 member with here | there
          · exact (mem_between.1 here).2.1
          · have := above string there
            omega
    · simp [past before ran]

end Windows

/-- The strings of a segment come in order, whatever the segment is. -/
theorem segmentStrings_ascending (s : Space) {window : Word}
    (sized : windowSize? s.config = some window) (segment : Segment) :
    (s.segmentStrings segment).Pairwise fun s t => s.start < t.start := by
  obtain ⟨window_eq, -, wide⟩ := windowSize_eq_some sized
  unfold segmentStrings
  simp only [window_eq]
  generalize segment.start + min segment.dataLength segment.length = stop
  have enough : stop.toNat - segment.start.toNat ≤ (stop - segment.start).toNat := by
    by_cases forward : segment.start ≤ stop
    · exact Nat.le_of_eq (UInt64.toNat_sub_of_le _ _ forward).symm
    · rw [UInt64.le_iff_toNat_le] at forward
      omega
  obtain ⟨strings, ran⟩ := Option.isSome_iff_exists.1
    (windowTurns_isSome wide _ (Nat.le_refl _) enough)
  rw [scanWindows_of_turns _ ran]
  exact (windowTurns_ascending wide _ (Nat.le_refl _) ran).1

theorem segmentStrings_of_read {s s' : Space} (read : s.read = s'.read)
    (config : s.config = s'.config) (segment : Segment) :
    s.segmentStrings segment = s'.segmentStrings segment := by
  have windows (first stop overlap window : Word) (least most fuel : Nat) (position : Word) :
      scanWindows s first stop overlap window least most fuel position =
        scanWindows s' first stop overlap window least most fuel position := by
    induction fuel generalizing position with
    | zero => rfl
    | succ fuel ih => simp only [scanWindows, read, ih]
  simp only [segmentStrings, windows, config]

/-- The search of a segment. -/
def sweep (s : Space) {window : Word} (sized : windowSize? s.config = some window)
    (segment : Segment) : Sweep :=
  ⟨.ofLength segment.start segment.length, s.segmentStrings segment,
    (s.segmentStrings_ascending sized segment).imp UInt64.ne_of_lt⟩

/-- The searches of some segments, as far as these may hold strings. -/
def sweeps (s : Space) {window : Word} (sized : windowSize? s.config = some window)
    (segments : List Segment) : List Sweep :=
  (segments.filter holdsStrings).map (s.sweep sized)

def withStrings (s : Space) (known : Table Word StringReference) : Space :=
  { s with metadata := { s.metadata with strings := known } }

theorem collect_replaceStrings (w : Sweep) {s : Space}
    (filed : s.metadata.strings.FiledBy (·.start)) :
    ((replaceStrings w.range w.found) s).collect =
      ((w.renew s.metadata.strings).2.map .changed, (),
        s.withStrings (w.renew s.metadata.strings).1) := by
  have plain (event : ChangeEvent) (told : event ∈ (w.renew s.metadata.strings).2) :
      event.isAboutSymbol = false := by
    obtain ⟨a, of⟩ := w.isOfString_of_renew filed told
    exact of.plain
  exact collect_tellQuietly_plain plain (s.withStrings (w.renew s.metadata.strings).1)

/-- Strings found for a range, no two at one place, are exchanged for those known there: afterwards
just they are known in the range, what is known outside is as it was, and nothing else of the space
is touched. Told is, once each, of known strings in the range that are not found again and of found
ones that were not known. -/
theorem replaced_strings_exact {s : Space} (filed : s.metadata.strings.FiledBy (·.start))
    (range : AddressRange) {found : List StringReference}
    (distinct : found.Pairwise fun t u => t.start ≠ u.start) :
    let known := s.metadata.strings
    ∃ (strings : Table Word StringReference) (events : List ChangeEvent),
      ((replaceStrings range found) s).collect =
          (events.map .changed, (), s.withStrings strings) ∧
        strings.FiledBy (·.start) ∧
        (∀ string, strings.get? string.start = some string ↔
          if range.contains string.start then string ∈ found
          else known.get? string.start = some string) ∧
        events.Nodup ∧
        (∀ event ∈ events, ∃ string, event = .stringRemoved string ∨ event = .stringFound string) ∧
        (∀ string, .stringRemoved string ∈ events ↔ known.get? string.start = some string ∧
          range.contains string.start = true ∧ string ∉ found) ∧
        (∀ string, .stringFound string ∈ events ↔ string ∈ found ∧
          range.contains string.start = true ∧ known.get? string.start ≠ some string) ∧
        ∀ string, ¬ (.stringRemoved string ∈ events ∧ .stringFound string ∈ events) := by
  intro known
  let w : Sweep := ⟨range, found, distinct⟩
  refine ⟨(w.renew known).1, (w.renew known).2, collect_replaceStrings w filed,
    w.renew_filed filed, fun string => ?_, w.renew_nodup filed, fun event told => ?_,
    fun string => w.removed_mem_renew filed, fun string => w.found_mem_renew filed, ?_⟩
  · rw [w.get?_renew filed]
    show (if range.contains string.start = true then w.at? string.start else _) = _ ↔ _
    cases range.contains string.start with
    | true => exact w.at?_eq_some_iff.trans (and_iff_left rfl)
    | false => exact Iff.rfl
  · obtain ⟨-, string, -, of⟩ := w.isOfString_of_renew filed told
    exact ⟨string, of.symm⟩
  · rintro string ⟨lost, new⟩
    -- What is lost was known, and what is new was not.
    exact ((w.found_mem_renew filed).1 new).2.2 ((w.removed_mem_renew filed).1 lost).1

/-- Of four known strings one is found again, at the place of another stands one of another kind,
one is gone and one lies outside; of the strings found, one lies outside as well. -/
theorem some_strings_replaced :
    let stays : StringReference := ⟨.ascii, 0x10, 8⟩
    let narrow : StringReference := ⟨.ascii, 0x20, 4⟩
    let wide : StringReference := ⟨.utf16, 0x20, 8⟩
    let gone : StringReference := ⟨.ascii, 0x30, 5⟩
    let fresh : StringReference := ⟨.ascii, 0x38, 6⟩
    let outside : StringReference := ⟨.ascii, 0x40, 4⟩
    let beyond : StringReference := ⟨.ascii, 0x50, 4⟩
    let known : Table Word StringReference :=
      (((Table.empty.insert 0x10 stays).insert 0x20 narrow).insert 0x30 gone).insert 0x40 outside
    let found := [fresh, beyond, wide, stays]
    known.FiledBy (·.start) ∧ (found.Pairwise fun t u => t.start ≠ u.start) ∧
      ∃ (strings : Table Word StringReference) (events : List ChangeEvent),
        ((replaceStrings ⟨0x10, 0x40⟩ found) (textSpace.withStrings known)).collect =
            (events.map .changed, (), (textSpace.withStrings known).withStrings strings) ∧
          strings.get? 0x20 = some wide ∧ strings.get? 0x40 = some outside ∧
          strings.get? 0x50 ≠ some beyond ∧ .stringRemoved narrow ∈ events ∧
          .stringRemoved gone ∈ events ∧ .stringFound wide ∈ events ∧
          .stringFound fresh ∈ events ∧ .stringFound stays ∉ events := by
  intro stays narrow wide gone fresh outside beyond known found
  have filed : known.FiledBy (·.start) := by
    refine Table.FiledBy.insert (Table.FiledBy.insert (Table.FiledBy.insert
      (Table.FiledBy.insert Table.filedBy_empty ?_) ?_) ?_) ?_ <;> rfl
  have distinct : found.Pairwise fun t u => t.start ≠ u.start := by decide
  obtain ⟨strings, events, collected, -, mem, -, -, removed, told, -⟩ :=
    replaced_strings_exact (s := textSpace.withStrings known) filed ⟨0x10, 0x40⟩ distinct
  refine ⟨filed, distinct, strings, events, collected, (mem wide).2 (by decide),
    (mem outside).2 (by decide), fun held => absurd ((mem beyond).1 held) (by decide),
    (removed narrow).2 (by decide), (removed gone).2 (by decide), (told wide).2 (by decide),
    (told fresh).2 (by decide), fun new => absurd ((told stays).1 new) (by decide)⟩

variable {known : Table Word StringReference} {window : Word}

/-- What `findStrings` does for one segment. -/
def searchSegment (segment : Segment) : Op Unit := do
  if !(← isAborted) && holdsStrings segment then
    let found ← Op.read (·.segmentStrings segment)
    replaceStrings (.ofLength segment.start segment.length) found

theorem collect_searchSegment (s : Space) (sized : windowSize? s.config = some window)
    (running : s.scheduler.aborted = false) (filed : known.FiledBy (·.start))
    (segment : Segment) :
    ((searchSegment segment) (s.withStrings known)).collect =
      if holdsStrings segment then
        (((s.sweep sized segment).renew known).2.map .changed, (),
          s.withStrings ((s.sweep sized segment).renew known).1)
      else ([], (), s.withStrings known) := by
  show ((if (!s.scheduler.aborted && holdsStrings segment) = true then _ else _ : Op Unit)
    (s.withStrings known)).collect = _
  rw [running, Bool.not_false, Bool.true_and]
  cases holdsStrings segment with
  | false => rfl
  | true =>
    have same : (s.withStrings known).segmentStrings segment = s.segmentStrings segment :=
      have read : (s.withStrings known).read = s.read := rfl
      segmentStrings_of_read read rfl segment
    show ((replaceStrings _ ((s.withStrings known).segmentStrings segment))
      (s.withStrings known)).collect = _
    rw [same]
    exact collect_replaceStrings (s.sweep sized segment) filed

/-- A search that nobody stops goes through one segment after the other. -/
theorem findStrings_renews (s : Space) (sized : windowSize? s.config = some window)
    (running : s.scheduler.aborted = false) (filed : known.FiledBy (·.start))
    (segments : List Segment) :
    let renewed := Sweep.renewAll (s.sweeps sized segments) known
    (findStrings segments).changes (s.withStrings known) = renewed.2 ∧
      ((findStrings segments) (s.withStrings known)).collect.2.2 = s.withStrings renewed.1 := by
  unfold sweeps
  induction segments generalizing known with
  | nil => exact ⟨rfl, rfl⟩
  | cons segment rest ih =>
    have searched := collect_searchSegment s sized running filed segment
    have next : findStrings (segment :: rest) =
        searchSegment segment >>= fun _ => findStrings rest := rfl
    rw [next, changes_bind, collect_bind, changes, searched, List.filter_cons]
    cases holdsStrings segment with
    | false => exact ih filed
    | true =>
      obtain ⟨told, after⟩ := ih ((s.sweep sized segment).renew_filed filed)
      refine ⟨?_, after⟩
      rw [if_pos rfl, if_pos rfl, told]
      exact congrArg (· ++ _) (filterMap_change?_changed _)

end Space

end BinaryAtlas
