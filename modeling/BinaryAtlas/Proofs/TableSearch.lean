import BinaryAtlas.Table
import BinaryAtlas.Word
import Mathlib.Data.List.Perm.Subperm
import Mathlib.Order.Basic

/-!
Tables by what their look-ups answer. Each operation and each search is described by the entries
that `get?` finds, so nothing built on a table has to open its list of entries.
-/

set_option autoImplicit false

namespace BinaryAtlas

namespace Table

section Lookup

variable {K V : Type} [Ord K] [Std.TransOrd K] [Std.LawfulEqOrd K]

theorem get?_insert [DecidableEq K] (table : Table K V) (key query : K) (value : V) :
    (table.insert key value).get? query = if query = key then some value else table.get? query := by
  by_cases same : query = key
  · simp [same]
  · simp [same, get?_insert_of_ne]

omit [Std.TransOrd K] in
theorem get?_erase [DecidableEq K] (table : Table K V) (key query : K) :
    (table.erase key).get? query = if query = key then none else table.get? query := by
  by_cases same : query = key
  · simp [same]
  · simp [same, get?_erase_of_ne]

theorem get?_insert_eq_some_iff {table : Table K V} {key query : K} {value found : V} :
    (table.insert key value).get? query = some found ↔
      query = key ∧ found = value ∨ query ≠ key ∧ table.get? query = some found := by
  by_cases same : query = key
  · simp [same, eq_comm]
  · simp [same, get?_insert_of_ne]

omit [Std.TransOrd K] in
theorem get?_erase_eq_some_iff {table : Table K V} {key query : K} {found : V} :
    (table.erase key).get? query = some found ↔ query ≠ key ∧ table.get? query = some found := by
  by_cases same : query = key
  · simp [same]
  · simp [same, get?_erase_of_ne]

theorem insert_erase (table : Table K V) (key : K) (value : V) :
    (table.erase key).insert key value = table.insert key value := by
  classical
  apply ext_get?
  intro query
  rw [get?_insert, get?_insert, get?_erase]
  split <;> rfl

theorem get?_alter [DecidableEq K] (table : Table K V) (key query : K)
    (f : Option V → Option V) :
    (table.alter key f).get? query =
      if query = key then f (table.get? key) else table.get? query := by
  unfold alter
  cases f (table.get? key) with
  | none => exact get?_erase table key query
  | some value => exact get?_insert table key query value

theorem alter_back (table : Table K V) (key : K) (state : Option V) :
    ((table.alter key fun _ => state).alter key fun _ => table.get? key) = table := by
  classical
  apply ext_get?
  intro query
  rw [get?_alter, get?_alter]
  by_cases same : query = key
  · rw [if_pos same, same]
  · rw [if_neg same, if_neg same]

theorem alter_same {table : Table K V} {key : K} {state : Option V}
    (same : table.get? key = state) : (table.alter key fun _ => state) = table := by
  classical
  apply ext_get?
  intro query
  rw [get?_alter]
  split
  · rename_i here
    rw [here, same]
  · rfl

omit [Std.TransOrd K] in
theorem get?_filter_eq_some_iff (table : Table K V) (keep : K → V → Bool) (key : K) (value : V) :
    (table.filter keep).get? key = some value ↔ table.get? key = some value ∧ keep key value := by
  simp [get?_eq_some_iff, filter]

omit [Std.TransOrd K] in
theorem get?_filter (table : Table K V) (keep : K → V → Bool) (key : K) :
    (table.filter keep).get? key = (table.get? key).filter (keep key) := by
  ext value
  rw [get?_filter_eq_some_iff, Option.filter_eq_some_iff]

omit [Std.TransOrd K] in
theorem get?_mapValues {W : Type} (table : Table K V) (f : K → V → W) (key : K) :
    (table.mapValues f).get? key = (table.get? key).map (f key) := by
  ext value
  simp only [get?_eq_some_iff, Option.map_eq_some_iff, mapValues, List.mem_map, Prod.mk.injEq]
  constructor
  · rintro ⟨⟨other, found⟩, member, rfl, rfl⟩
    exact ⟨found, member, rfl⟩
  · rintro ⟨found, member, rfl⟩
    exact ⟨(key, found), member, rfl, rfl⟩

omit [Std.TransOrd K] in
theorem mem_keys_iff (table : Table K V) (key : K) :
    key ∈ table.keys ↔ ∃ value, table.get? key = some value := by
  simp [keys, get?_eq_some_iff]

omit [Std.TransOrd K] in
theorem mem_values_iff (table : Table K V) (value : V) :
    value ∈ table.values ↔ ∃ key, table.get? key = some value := by
  simp [values, get?_eq_some_iff]

omit [Std.TransOrd K] in
theorem keys_nodup (table : Table K V) : table.keys.Nodup := by
  rw [keys, List.Nodup, List.pairwise_map]
  refine table.ascending.imp fun {first later} before same => ?_
  rw [same] at before
  simp at before

omit [Std.TransOrd K] in
theorem values_map_nodup {X : Type} {table : Table K V} {f : V → X}
    (distinct : ∀ {key key' value value'}, table.get? key = some value →
      table.get? key' = some value' → f value = f value' → key = key') :
    (table.values.map f).Nodup := by
  rw [values, List.map_map, List.Nodup, List.pairwise_map]
  refine table.ascending.imp_of_mem fun {first later} member member' before same => ?_
  have key := distinct (get?_eq_some_iff.2 member) (get?_eq_some_iff.2 member') same
  rw [key] at before
  simp at before

theorem get?_foldl_insert {file : V → K} {items : List V} (distinct : (items.map file).Nodup)
    (table : Table K V) :
    (∀ item ∈ items,
      (items.foldl (fun t v => t.insert (file v) v) table).get? (file item) = some item) ∧
    ∀ key, (∀ item ∈ items, file item ≠ key) →
      (items.foldl (fun t v => t.insert (file v) v) table).get? key = table.get? key := by
  induction items generalizing table with
  | nil => simp
  | cons first rest ih =>
    rw [List.map_cons, List.nodup_cons] at distinct
    obtain ⟨held, other⟩ := ih distinct.2 (table.insert (file first) first)
    rw [List.foldl_cons]
    refine ⟨fun item member => ?_, fun key absent => ?_⟩
    · rcases List.mem_cons.1 member with rfl | later
      · rw [other _ fun item member same => distinct.1 (List.mem_map.2 ⟨item, member, same⟩),
          get?_insert_self]
      · exact held item later
    · rw [other key fun item member => absent item (List.mem_cons_of_mem first member),
        get?_insert_of_ne table first (absent first List.mem_cons_self).symm]

omit [Std.TransOrd K] [Std.LawfulEqOrd K] in
theorem contains_iff (table : Table K V) (key : K) :
    table.contains key = true ↔ ∃ value, table.get? key = some value :=
  Option.isSome_iff_exists

omit [Std.TransOrd K] in
theorem mem_keys_iff_contains (table : Table K V) (key : K) :
    key ∈ table.keys ↔ table.contains key = true :=
  (mem_keys_iff table key).trans (contains_iff table key).symm

theorem contains_insert [DecidableEq K] (table : Table K V) (key query : K) (value : V) :
    (table.insert key value).contains query = (decide (query = key) || table.contains query) := by
  rw [contains, get?_insert]
  by_cases same : query = key <;> simp [same, contains]

theorem size_insert {table : Table K V} {key : K} (new : table.contains key = false) (value : V) :
    (table.insert key value).size = table.size + 1 := by
  have absent : ∀ e ∈ table.entries, compare key e.1 ≠ .eq := by
    intro e member same
    have held := get?_eq_some_iff.2 (show (key, e.2) ∈ table.entries from
      Std.compare_eq_iff_eq.1 same ▸ member)
    simp [contains, held] at new
  show (place key value table.entries).length = table.entries.length + 1
  generalize table.entries = entries at absent
  induction entries with
  | nil => rfl
  | cons e rest ih =>
    have other := absent e List.mem_cons_self
    unfold place
    cases side : compare key e.1 with
    | lt => rfl
    | eq => exact absurd side other
    | gt => simp [ih fun e member => absent e (List.mem_cons_of_mem _ member)]

/-- What is filed under a key of its own makes the same table again, in whatever order. -/
theorem refiled {table : Table K V} {file : V → K}
    (filed : ∀ key value, table.get? key = some value → file value = key) {items : List V}
    (same : items.Perm table.values) :
    items.foldl (fun t v => t.insert (file v) v) empty = table := by
  have distinct : (items.map file).Nodup := by
    rw [(same.map file).nodup_iff]
    refine values_map_nodup fun {key key' value value'} held held' agree => ?_
    rw [← filed key value held, ← filed key' value' held', agree]
  obtain ⟨held, other⟩ := get?_foldl_insert distinct empty
  apply ext_get?
  intro key
  cases found : table.get? key with
  | none =>
    rw [other key, get?_empty]
    intro item member same_key
    obtain ⟨key', held'⟩ := (mem_values_iff table item).1 (same.mem_iff.1 member)
    rw [← filed key' item held', same_key, found] at held'
    cases held'
  | some value =>
    have member := same.mem_iff.2 ((mem_values_iff table value).2 ⟨key, found⟩)
    have here := held value member
    rwa [filed key value found] at here

end Lookup

section Search

variable {K V : Type} [Ord K] [LE K] [LT K] [Std.LawfulOrderOrd K] [Std.LawfulOrderLT K]

theorem keys_ascending (table : Table K V) : table.keys.Pairwise (· < ·) := by
  rw [keys, List.pairwise_map]
  exact table.ascending.imp Std.compare_eq_lt.1

variable [Std.IsLinearOrder K]

theorem getLast?_eq_some_iff {entries : List (K × V)}
    (ascending : entries.Pairwise fun a b => compare a.1 b.1 = .lt) (last : K × V) :
    entries.getLast? = some last ↔ last ∈ entries ∧ ∀ entry ∈ entries, entry.1 ≤ last.1 := by
  constructor
  · intro found
    obtain ⟨front, rfl⟩ := List.getLast?_eq_some_iff.1 found
    have below := (List.pairwise_append.1 ascending).2.2
    refine ⟨by simp, fun entry member => ?_⟩
    rcases List.mem_append.1 member with earlier | same
    · exact Std.le_of_lt (Std.compare_eq_lt.1 (below entry earlier last (by simp)))
    · rw [List.mem_singleton.1 same]
      exact Std.le_refl _
  · rintro ⟨member, greatest⟩
    obtain ⟨front, back, rfl⟩ := List.append_of_mem member
    cases back with
    | nil => simp
    | cons next rest =>
      have above := (List.pairwise_cons.1 (List.pairwise_append.1 ascending).2.1).1 next (by simp)
      have := greatest next (by simp)
      exact absurd (Std.compare_eq_lt.1 above) (Std.not_lt_of_ge this)

theorem below?_eq_some_iff (table : Table K V) (key bound : K) (value : V) :
    table.below? bound = some (key, value) ↔ table.get? key = some value ∧ key < bound ∧
      ∀ other held, table.get? other = some held → other < bound → other ≤ key := by
  rw [below?, getLast?_eq_some_iff (table.ascending.filter _)]
  simp [get?_eq_some_iff, Std.compare_eq_lt, Ordering.isLT_iff_eq_lt]
  grind

theorem atOrBelow?_eq_some_iff (table : Table K V) (key bound : K) (value : V) :
    table.atOrBelow? bound = some (key, value) ↔ table.get? key = some value ∧ key ≤ bound ∧
      ∀ other held, table.get? other = some held → other ≤ bound → other ≤ key := by
  rw [atOrBelow?, getLast?_eq_some_iff (table.ascending.filter _)]
  simp [get?_eq_some_iff, Std.isLE_compare]
  grind

theorem below?_eq_none_iff (table : Table K V) (bound : K) :
    table.below? bound = none ↔ ∀ key value, table.get? key = some value → ¬ key < bound := by
  simp [below?, get?_eq_some_iff, Std.compare_eq_lt, Ordering.isLT_iff_eq_lt]

omit [LT K] [Std.LawfulOrderLT K] in
theorem atOrBelow?_eq_none_iff (table : Table K V) (bound : K) :
    table.atOrBelow? bound = none ↔ ∀ key value, table.get? key = some value → ¬ key ≤ bound := by
  simp [atOrBelow?, get?_eq_some_iff, Std.isLE_compare]

theorem find?_entries_eq_some {table : Table K V} {wanted : K × V → Bool} {key : K} {value : V}
    (found : table.entries.find? wanted = some (key, value)) :
    table.get? key = some value ∧ wanted (key, value) ∧
      ∀ other held, table.get? other = some held → wanted (other, held) → key ≤ other := by
  obtain ⟨good, front, back, entries_eq, skipped⟩ := List.find?_eq_some_iff_append.1 found
  have ascending := table.ascending
  rw [entries_eq] at ascending
  have after := (List.pairwise_cons.1 (List.pairwise_append.1 ascending).2.1).1
  refine ⟨get?_eq_some_iff.2 (by simp [entries_eq]), good, fun other held present suits => ?_⟩
  have member := get?_eq_some_iff.1 present
  rw [entries_eq] at member
  rcases List.mem_append.1 member with earlier | member
  · simpa [suits] using skipped _ earlier
  · rcases List.mem_cons.1 member with same | later
    · rw [(Prod.mk.inj same).1]
      exact Std.le_refl _
    · exact Std.le_of_lt (Std.compare_eq_lt.1 (after _ later))

theorem mem_between_iff (table : Table K V) (lo hi key : K) (value : V) :
    (key, value) ∈ table.between lo hi ↔ table.get? key = some value ∧ lo ≤ key ∧ key < hi := by
  simp [between, get?_eq_some_iff, Std.compare_eq_lt, Ordering.isLT_iff_eq_lt, Std.isGE_compare]

end Search

/-- A list of distinct words is no longer than there are words. -/
theorem words_length_le {l : List Word} (distinct : l.Nodup) :
    l.length ≤ 0x10000000000000000 := by
  have apart : (l.map UInt64.toNat).Nodup :=
    List.pairwise_map.2 (distinct.imp fun other same => other (UInt64.toNat_inj.1 same))
  have within : l.map UInt64.toNat ⊆ List.range 0x10000000000000000 := by
    intro n member
    obtain ⟨a, -, rfl⟩ := List.mem_map.1 member
    exact List.mem_range.2 a.toNat_lt
  have := (List.subperm_of_subset apart within).length_le
  rwa [List.length_range, List.length_map] at this

/-- A table that has all the keys of another one and a further one is larger. -/
theorem size_lt {V : Type} {table larger : Table Word V}
    (grown : ∀ x, table.contains x = true → larger.contains x = true) {x : Word}
    (new : table.contains x = false) (there : larger.contains x = true) :
    table.size < larger.size := by
  have distinct : (x :: table.keys).Nodup :=
    List.nodup_cons.2 ⟨by simp [mem_keys_iff_contains, new], table.keys_nodup⟩
  have within : x :: table.keys ⊆ larger.keys := by
    intro y member
    rw [mem_keys_iff_contains]
    rcases List.mem_cons.1 member with rfl | member
    · exact there
    · exact grown y ((mem_keys_iff_contains table y).1 member)
  have longer := (List.subperm_of_subset distinct within).length_le
  rw [List.length_cons, keys, keys, List.length_map, List.length_map] at longer
  exact longer

/-- A table with an entry for every address is full. -/
theorem size_le {V : Type} (table : Table Word V) : table.size ≤ 0x10000000000000000 := by
  have := words_length_le table.keys_nodup
  rwa [keys, List.length_map] at this

end Table

end BinaryAtlas
