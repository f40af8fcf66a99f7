import BinaryAtlas.Proofs.Storage.Bytes

/-!
What was written, put in between or taken out can be taken back: the bytes that were there before
are enough to make the contents what they were.
-/

set_option autoImplicit false

namespace BinaryAtlas

theorem LongestPrefix.whole {A : Type} {item? : Nat → Option A} {limit : Nat} {items : List A}
    (longest : LongestPrefix item? limit items) : LongestPrefix item? items.length items :=
  ⟨Nat.le_refl _, longest.agrees, fun short => absurd short (Nat.lt_irrefl _)⟩

namespace Storage

theorem last_place {offsets : List Word} {offset : Word} (member : offset ∈ offsets) :
    ∃ i : Nat, offsets[i]? = some offset ∧ ∀ j, i < j → offsets[j]? ≠ some offset := by
  induction offsets with
  | nil => cases member
  | cons first rest ih =>
    by_cases again : offset ∈ rest
    · obtain ⟨i, found, unrepeated⟩ := ih again
      refine ⟨i + 1, by simpa using found, fun j behind => ?_⟩
      obtain ⟨j, rfl⟩ : ∃ k, j = k + 1 := ⟨j - 1, by omega⟩
      simpa using unrepeated j (by omega)
    · obtain rfl := (List.mem_cons.1 member).resolve_right again
      refine ⟨0, rfl, fun j behind => ?_⟩
      obtain ⟨j, rfl⟩ : ∃ k, j = k + 1 := ⟨j - 1, by omega⟩
      intro found
      exact again (List.mem_of_getElem? (by simpa using found))

theorem Stored.unique {before after other : List UInt8} {offsets : List Word} {data : List UInt8}
    (stored : Stored before after offsets data) (again : Stored before other offsets data) :
    after = other := by
  apply List.ext_getElem?
  intro p
  by_cases somewhere : ∃ offset ∈ offsets, offset.toNat = p
  · obtain ⟨offset, member, rfl⟩ := somewhere
    obtain ⟨i, found, unrepeated⟩ := last_place member
    rw [stored.last i offset found unrepeated, again.last i offset found unrepeated]
  · have elsewhere : ∀ offset ∈ offsets, offset.toNat ≠ p :=
      fun offset member here => somewhere ⟨offset, member, here⟩
    rw [stored.others p elsewhere, again.others p elsewhere]

/-- Putting the old bytes where others were put leads back, also where several were put at one
place. -/
theorem Stored.reversed {before after : List UInt8} {offsets : List Word} {data old : List UInt8}
    (stored : Stored before after offsets data)
    (saved : ∀ (i : Nat) (offset : Word), offsets[i]? = some offset →
      old[i]? = before[offset.toNat]?) : Stored after before offsets old where
  length := stored.length.symm
  last i offset found _ := (saved i offset found).symm
  others p elsewhere := (stored.others p elsewhere).symm

theorem Stored.take {before after : List UInt8} {offsets : List Word} {data : List UInt8}
    (stored : Stored before after offsets data) :
    Stored before after offsets (data.take offsets.length) where
  length := stored.length
  last i offset found unrepeated := by
    have inside := (List.getElem?_eq_some_iff.1 found).1
    rw [stored.last i offset found unrepeated, List.getElem?_take, if_pos inside]
  others := stored.others

theorem overwrite_of_no_room {bytes data : List UInt8} {offset : Nat}
    (nothing : room bytes offset data = 0) : overwrite bytes offset data = bytes := by
  apply List.ext_getElem?
  intro p
  rw [getElem?_overwrite, nothing, if_neg (by omega)]

theorem overwrite_take_room (bytes : List UInt8) (offset : Nat) (data : List UInt8) :
    overwrite bytes offset (data.take (room bytes offset data)) = overwrite bytes offset data := by
  apply List.ext_getElem?
  intro p
  have same : room bytes offset (data.take (room bytes offset data)) = room bytes offset data := by
    simp [room]
  rw [getElem?_overwrite, getElem?_overwrite, same, List.getElem?_take]
  by_cases inside : offset ≤ p ∧ p < offset + room bytes offset data
  · have within : p - offset < room bytes offset data := by omega
    rw [if_pos inside, if_pos inside, if_pos within]
  · rw [if_neg inside, if_neg inside]

theorem overwrite_undone (bytes data : List UInt8) (offset : Nat) :
    overwrite (overwrite bytes offset data) offset
      ((slice bytes offset data.length).take (room bytes offset data)) = bytes := by
  apply List.ext_getElem?
  intro p
  have same : room (overwrite bytes offset data) offset
      ((slice bytes offset data.length).take (room bytes offset data)) =
        room bytes offset data := by
    simp [room, slice]
  rw [getElem?_overwrite, same]
  by_cases inside : offset ≤ p ∧ p < offset + room bytes offset data
  · have within : p - offset < room bytes offset data := by omega
    have short : p - offset < data.length := by
      unfold room at within
      omega
    have place : offset + (p - offset) = p := by omega
    rw [if_pos inside, List.getElem?_take, if_pos within, getElem?_slice, if_pos short, place]
  · rw [if_neg inside, getElem?_overwrite, if_neg inside]

theorem removed_inserted (bytes data : List UInt8) {offset : Nat}
    (inside : offset ≤ bytes.length) :
    (bytes.take offset ++ data ++ bytes.drop offset).take offset ++
      (bytes.take offset ++ data ++ bytes.drop offset).drop (offset + data.length) = bytes := by
  have front : (bytes.take offset).length = offset := List.length_take_of_le inside
  rw [List.append_assoc, List.take_left' front, ← List.append_assoc, List.drop_left',
    List.take_append_drop]
  rw [List.length_append, front]

theorem inserted_removed (bytes : List UInt8) {offset count : Nat}
    (inside : offset ≤ bytes.length) :
    (bytes.take offset ++ bytes.drop (offset + count)).take offset ++ slice bytes offset count ++
      (bytes.take offset ++ bytes.drop (offset + count)).drop offset = bytes := by
  have front : (bytes.take offset).length = offset := List.length_take_of_le inside
  rw [List.take_left' front, List.drop_left' front, slice, List.append_assoc, ← List.drop_drop,
    List.take_append_drop, List.take_append_drop]

end Storage

end BinaryAtlas
