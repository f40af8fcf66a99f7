import BinaryAtlas.Proofs.Undo.Provenance
import Mathlib.Data.List.Induction

/-!
Storing values automatically. Unlike what is defined at an address or under a name, a value makes no
difference to whose it was that had its key: the last one stored is there.
-/

set_option autoImplicit false

namespace BinaryAtlas

namespace Metadata

/-- Values that are put under their keys one after the other, as automatic ones. -/
def withStores (m : Metadata) (stores : List (String × Json)) : Metadata :=
  { m with values := stores.foldl (fun t store => t.insert store.1 (store.2, true)) m.values }

theorem get?_withStores (m : Metadata) (stores : List (String × Json)) (key : String) :
    (m.withStores stores).values.get? key =
      match (stores.filter (·.1 == key)).getLast? with
      | some store => some (store.2, true)
      | none => m.values.get? key := by
  unfold withStores
  induction stores using List.reverseRecOn with
  | nil => rfl
  | append_singleton stores store ih =>
    rw [List.foldl_append, List.foldl_cons, List.foldl_nil, Table.get?_insert, ih,
      List.filter_append]
    by_cases here : store.1 = key
    · simp [here]
    · simp [here, Ne.symm here]

theorem withStores_overwrites {m : Metadata} {key : String} {value : Json}
    (own : m.values.get? key = some (value, false)) (stores : List (String × Json)) :
    (m.withStores stores).values.get? key = some (value, false) ↔
      ∀ store ∈ stores, store.1 ≠ key := by
  rw [get?_withStores]
  cases last : (stores.filter (·.1 == key)).getLast? with
  | none =>
    have untouched := List.filter_eq_nil_iff.1 (List.getLast?_eq_none_iff.1 last)
    simpa [own] using untouched
  | some store =>
    have member := List.mem_filter.1 (List.mem_of_getLast? last)
    simp only [Option.some.injEq, Prod.mk.injEq, Bool.true_eq_false, and_false, false_iff]
    exact fun others => others store member.1 (beq_iff_eq.1 member.2)

end Metadata

namespace Space

variable {s : Space} {key : String} {value : Json}

def storeAutomatically (stores : List (String × Json)) : Op Unit :=
  Op.forEach (fun store => storeValue store.1 store.2 true) stores

theorem storeValue_auto_settles (s : Space) (key : String) (value : Json) :
    (storeValue key value true).Settles s ()
      { s with metadata := s.metadata.withStores [(key, value)] } := by
  unfold storeValue
  simp only [Op.read_bind_settles, editMetadata, Op.modify_bind_settles]
  cases (s.metadata.values.get? key).any fun old => old.1.agrees value && old.2 == true with
  | true => exact Op.pure_settles _ _
  | false => exact recordIf_bind_settles.2 (emit_settles _ _)

theorem storeAutomatically_settles (stores : List (String × Json)) (s : Space) :
    (storeAutomatically stores).Settles s ()
      { s with metadata := s.metadata.withStores stores } := by
  induction stores generalizing s with
  | nil => exact Op.pure_settles _ _
  | cons store rest ih =>
    obtain ⟨-, first⟩ := storeValue_auto_settles s store.1 store.2
    obtain ⟨-, later⟩ := ih ((storeValue store.1 store.2 true) s).collect.2.2
    constructor
    · rfl
    · unfold storeAutomatically at later ⊢
      rw [Op.forEach, Op.collect_bind]
      -- What has still to be told after the first store has no bearing on the others.
      exact later.trans (congrArg (fun t : Space =>
        { t with metadata := t.metadata.withStores rest }) first)

/-- Values are stored automatically, one after the other, and nothing is noted of that. A user's
value that was there stays, and is saved, exactly if none of them has its key; where one has, the
last of them takes its place. -/
theorem automatic_stores_overwrite (own : s.metadata.values.get? key = some (value, false))
    (stores : List (String × Json)) (savedAt : Timestamp) :
    let after := ((storeAutomatically stores) s).collect.2.2
    after.undoLog = s.undoLog ∧
      after.metadata = { s.metadata with values := after.metadata.values } ∧
      (∀ query, after.metadata.values.get? query =
        match (stores.filter (·.1 == query)).getLast? with
        | some store => some (store.2, true)
        | none => s.metadata.values.get? query) ∧
      (after.metadata.values.get? key = some (value, false) ↔
        ∀ store ∈ stores, store.1 ≠ key) ∧
      ((after.snapshot savedAt).metadata.values.get? key =
          (s.snapshot savedAt).metadata.values.get? key ↔
        ∀ store ∈ stores, store.1 ≠ key) := by
  intro after
  have settles := storeAutomatically_settles stores s
  have metadata : after.metadata = s.metadata.withStores stores := settles.shows fun _ => rfl
  have kept := s.metadata.withStores_overwrites own stores
  rw [← metadata] at kept
  refine ⟨settles.undoLog, ?_, ?_, kept, ?_⟩
  · rw [metadata]
    rfl
  · rw [metadata]
    exact s.metadata.get?_withStores stores
  · rw [← kept]
    show after.metadata.userRecords.values.get? key = s.metadata.userRecords.values.get? key ↔ _
    rw [Metadata.get?_userValues, Metadata.get?_userValues, own]
    rcases after.metadata.values.get? key with _ | ⟨_, _ | _⟩ <;> simp [Option.filter]

theorem other_values_stored :
    let after := ((storeAutomatically [("j", .null), ("l", .null), ("j", .bool false)])
      (valuedSpace false)).collect.2.2
    after.metadata.values.get? "k" = some (.bool true, false) ∧
      after.metadata.values.get? "j" = some (.bool false, true) := by
  have own : (valuedSpace false).metadata.values.get? "k" = some (.bool true, false) := by
    decide +kernel
  obtain ⟨-, -, stored, kept, -⟩ := automatic_stores_overwrite own
    [("j", .null), ("l", .null), ("j", .bool false)] ⟨0, 0⟩
  exact ⟨kept.2 (by decide), stored "j"⟩

/-- A value stored automatically takes the place of a user's, which is not saved any more. -/
theorem user_value_overwritten :
    Reachable (valuedSpace false) ∧
      (valuedSpace false).metadata.values.get? "k" = some (.bool true, false) ∧
      ((valuedSpace false).snapshot ⟨0, 0⟩).metadata.values.get? "k" =
        some (.bool true, false) ∧
      let after := ((storeAutomatically [("k", .null)]) (valuedSpace false)).collect.2.2
      after.metadata.values.get? "k" = some (.null, true) ∧
        (after.snapshot ⟨0, 0⟩).metadata.values.get? "k" = none ∧
        after.undoLog = (valuedSpace false).undoLog :=
  ⟨valuedSpace_reachable false, by decide +kernel⟩

end Space

end BinaryAtlas
