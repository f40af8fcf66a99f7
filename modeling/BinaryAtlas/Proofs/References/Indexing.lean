import BinaryAtlas.Proofs.TableSearch
import BinaryAtlas.Space.References
import Mathlib.Tactic.Tauto

/-!
References are kept twice, from where they begin and from where they lead. Whatever adds, takes out
or renews references does the same to both.
-/

set_option autoImplicit false

namespace BinaryAtlas

namespace Table

variable {K : Type} [Ord K] [Std.TransOrd K] [Std.LawfulEqOrd K]

/-- A table made of keys alone has those keys. -/
theorem get?_ofList_keys [DecidableEq K] (keys : List K) (query : K) :
    (ofList (keys.map fun key => (key, ()))).get? query =
      if query ∈ keys then some () else none := by
  have step (table : Table K Unit) :
      ((keys.map fun key => (key, ())).foldl (fun t e => t.insert e.1 e.2) table).get? query =
        if query ∈ keys then some () else table.get? query := by
    induction keys generalizing table with
    | nil => simp
    | cons key rest ih =>
      rw [List.map_cons, List.foldl_cons, ih, get?_insert]
      by_cases here : query = key <;> simp [here]
  exact step empty

end Table

namespace Metadata

/-- Takes out the automatic references that begin in some ranges and puts in others, which do not
replace what is there. -/
def renewReferences (m : Metadata) (ranges : List AddressRange) (found : List ReferenceKey) :
    Metadata :=
  let stale := ranges.flatMap fun r =>
    (m.outgoing.entries.filter fun e => r.start ≤ e.1.near && e.1.near < r.stop && e.2).map (·.1)
  let m := stale.foldl (·.removeReference) m
  found.foldl (fun m key => m.addReference key ((m.outgoing.get? key).getD true)) m

/-- The index of references by their targets knows of a reference just if the table has it. -/
def Mirrors (m : Metadata) (key : ReferenceKey) : Prop :=
  m.incoming.get? key.flip = (m.outgoing.get? key).map fun _ => ()

instance (m : Metadata) (key : ReferenceKey) : Decidable (m.Mirrors key) :=
  inferInstanceAs (Decidable (_ = _))

/-- The index is right about all references. -/
def Indexed (m : Metadata) : Prop := ∀ key, m.Mirrors key

variable {m : Metadata}

theorem flip_eq_iff {key query : ReferenceKey} : query.flip = key.flip ↔ query = key := by
  obtain ⟨near, far, kind⟩ := key
  obtain ⟨near', far', kind'⟩ := query
  simp only [ReferenceKey.flip, ReferenceKey.mk.injEq]
  tauto

theorem Indexed.of_same {after : Metadata} (indexed : m.Indexed)
    (outgoing : after.outgoing = m.outgoing) (incoming : after.incoming = m.incoming) :
    after.Indexed := by
  intro key
  unfold Mirrors
  rw [outgoing, incoming]
  exact indexed key

/-- What one key is changed to in the table, its flip is changed to in the index. -/
theorem indexed_of_change {after : Metadata} {key : ReferenceKey} {auto? : Option Bool}
    (indexed : m.Indexed)
    (outgoing : ∀ query, after.outgoing.get? query =
      if query = key then auto? else m.outgoing.get? query)
    (incoming : ∀ query, after.incoming.get? query =
      if query = key.flip then auto?.map fun _ => () else m.incoming.get? query) :
    after.Indexed := by
  intro query
  unfold Mirrors
  rw [incoming, outgoing, indexed query]
  by_cases here : query = key
  · rw [if_pos (flip_eq_iff.2 here), if_pos here]
  · rw [if_neg (mt flip_eq_iff.1 here), if_neg here]

theorem addReference_indexed (indexed : m.Indexed) (key : ReferenceKey) (auto : Bool) :
    (m.addReference key auto).Indexed :=
  indexed_of_change indexed (fun query => m.outgoing.get?_insert key query auto)
    fun query => m.incoming.get?_insert key.flip query ()

theorem removeReference_indexed (indexed : m.Indexed) (key : ReferenceKey) :
    (m.removeReference key).Indexed :=
  indexed_of_change indexed (fun query => m.outgoing.get?_erase key query)
    fun query => m.incoming.get?_erase key.flip query

/-- Renewing references takes them out of both tables and puts them into both. -/
theorem renewReferences_indexed (indexed : m.Indexed) (ranges : List AddressRange)
    (found : List ReferenceKey) : (m.renewReferences ranges found).Indexed := by
  unfold renewReferences
  refine List.foldlRecOn (motive := Indexed) found _ ?_
    fun _ indexed key _ => addReference_indexed indexed key _
  exact List.foldlRecOn (motive := Indexed) _ _ indexed
    fun _ indexed key _ => removeReference_indexed indexed key

theorem empty_indexed : empty.Indexed := fun _ => rfl

/-- What is kept of a user's references is indexed anew. -/
theorem userRecords_indexed (m : Metadata) : m.userRecords.Indexed := by
  intro key
  have index : m.userRecords.incoming =
      .ofList ((m.userRecords.outgoing.keys.map (·.flip)).map fun key => (key, ())) := by
    show Table.ofList _ = _
    rw [Table.keys, List.map_map, List.map_map]
    rfl
  have member : key.flip ∈ m.userRecords.outgoing.keys.map (·.flip) ↔
      ∃ auto, m.userRecords.outgoing.get? key = some auto := by
    rw [← Table.mem_keys_iff, List.mem_map]
    constructor
    · rintro ⟨other, member, same⟩
      exact flip_eq_iff.1 same ▸ member
    · exact fun member => ⟨key, member, rfl⟩
  unfold Mirrors
  rw [index, Table.get?_ofList_keys]
  cases held : m.userRecords.outgoing.get? key with
  | none => simp [member, held]
  | some auto => simp [member, held]

end Metadata

end BinaryAtlas
