import BinaryAtlas.Proofs.LongestPrefix
import BinaryAtlas.Storage

/-!
What reads and writes make of single stored bytes.
-/

set_option autoImplicit false

namespace BinaryAtlas

namespace Storage

theorem getElem?_slice (bytes : List UInt8) (offset length i : Nat) :
    (slice bytes offset length)[i]? = if i < length then bytes[offset + i]? else none := by
  simp [slice, List.getElem?_take]

/-- Reading answers with the stored bytes, which a provider may fail to do. -/
def Truthful (s : Storage) : Prop :=
  ∀ offset length, s.read offset length = slice s.contents offset.toNat length

theorem length_read_le (s : Storage) (offset : Word) (length : Nat) :
    (s.read offset length).length ≤ length := by
  unfold read slice
  cases s.medium <;> exact List.length_take_le _ _

theorem read_ne_nil {s : Storage} (plain : ∀ access, s.medium ≠ .provider access)
    {offset : Word} (byte : s.read offset 1 ≠ []) {length : Nat} (wanted : 0 < length) :
    s.read offset length ≠ [] := by
  have some_wanted : length ≠ 0 := Nat.ne_of_gt wanted
  unfold read slice at *
  cases medium : s.medium with
  | memory => simpa [medium, some_wanted] using byte
  | file => simpa [medium, some_wanted] using byte
  | provider access => exact absurd medium (plain access)

@[simp] theorem length_overwrite (bytes : List UInt8) (offset : Nat) (data : List UInt8) :
    (overwrite bytes offset data).length = bytes.length := by
  unfold overwrite
  split
  · simp
    omega
  · rfl

theorem getElem?_overwrite (bytes : List UInt8) (offset : Nat) (data : List UInt8) (p : Nat) :
    (overwrite bytes offset data)[p]? =
      if offset ≤ p ∧ p < offset + room bytes offset data then data[p - offset]?
      else bytes[p]? := by
  unfold overwrite room
  by_cases inside : offset < bytes.length
  · simp only [inside, if_true, List.getElem?_append, List.length_append, List.length_take,
      List.getElem?_take, List.getElem?_drop]
    grind
  · have no_room : ¬ (offset ≤ p ∧ p < offset + min data.length (bytes.length - offset)) := by
      omega
    simp [inside, no_room]

theorem getElem?_inserted (bytes data : List UInt8) {offset : Nat} (inside : offset ≤ bytes.length)
    (p : Nat) :
    (bytes.take offset ++ data ++ bytes.drop offset)[p]? =
      if p < offset then bytes[p]?
      else if p < offset + data.length then data[p - offset]? else bytes[p - data.length]? := by
  have front : (bytes.take offset).length = offset := by
    rw [List.length_take]
    omega
  by_cases early : p < offset
  · rw [if_pos early, List.append_assoc, List.getElem?_append_left (by omega),
      List.getElem?_take, if_pos early]
  · by_cases new : p < offset + data.length
    · rw [if_neg early, if_pos new, List.append_assoc, List.getElem?_append_right (by omega),
        front, List.getElem?_append_left (by omega)]
    · have place : offset + (p - (offset + data.length)) = p - data.length := by omega
      rw [if_neg early, if_neg new, List.getElem?_append_right (by rw [List.length_append]; omega),
        List.length_append, front, List.getElem?_drop, place]

theorem getElem?_removed (bytes : List UInt8) {offset count : Nat}
    (inside : offset + count ≤ bytes.length) (p : Nat) :
    (bytes.take offset ++ bytes.drop (offset + count))[p]? =
      if p < offset then bytes[p]? else bytes[p + count]? := by
  have front : (bytes.take offset).length = offset := by
    rw [List.length_take]
    omega
  by_cases early : p < offset
  · rw [if_pos early, List.getElem?_append_left (by omega), List.getElem?_take, if_pos early]
  · have place : offset + count + (p - offset) = p + count := by omega
    rw [if_neg early, List.getElem?_append_right (by omega), front, List.getElem?_drop, place]

theorem write_memory {s : Storage} (memory : s.medium = .memory) (offset : Word)
    (data : List UInt8) :
    (s.write offset data).1.medium = .memory ∧
      (s.write offset data).1.contents = overwrite s.contents offset.toNat data ∧
      (s.write offset data).2 = room s.contents offset.toNat data := by
  simp [write, written, memory]

theorem insert_memory {s : Storage} (memory : s.medium = .memory) {offset : Word}
    (accepted : offset.toNat ≤ s.size) (data : List UInt8) :
    (s.insert offset data).1 =
      { s with contents := s.contents.take offset.toNat ++ data ++ s.contents.drop offset.toNat,
               log := s.log.insertShift offset (.ofNatCapped data.length) } := by
  simp [insert, memory, accepted]

theorem remove_memory {s : Storage} (memory : s.medium = .memory) {offset : Word}
    (accepted : offset.toNat < s.size) (length : Word) {count : Nat}
    (count_eq : min length.toNat (s.size - offset.toNat) = count) :
    (s.remove offset length).1 =
      { s with contents := s.contents.take offset.toNat ++ s.contents.drop (offset.toNat + count),
               log := s.log.removeShift offset (.ofNatCapped count) } := by
  simp only [remove, memory, accepted, if_true, count_eq]

/-- Bytes after the bytes of `data` were put at these offsets, one after the other. -/
structure Stored (before after : List UInt8) (offsets : List Word) (data : List UInt8) : Prop where
  length : after.length = before.length
  last : ∀ (i : Nat) (offset : Word), offsets[i]? = some offset →
    (∀ j, i < j → offsets[j]? ≠ some offset) → after[offset.toNat]? = data[i]?
  others : ∀ p : Nat, (∀ offset ∈ offsets, offset.toNat ≠ p) → after[p]? = before[p]?

theorem stored_nil (bytes data : List UInt8) : Stored bytes bytes [] data :=
  ⟨rfl, by simp, fun _ _ => rfl⟩

theorem Stored.append {before middle after : List UInt8} {offsets later : List Word}
    {data more : List UInt8} (first : Stored before middle offsets data)
    (second : Stored middle after later more) (same_length : offsets.length = data.length) :
    Stored before after (offsets ++ later) (data ++ more) := by
  constructor
  · rw [second.length, first.length]
  · intro i offset found unrepeated
    by_cases early : i < offsets.length
    · rw [List.getElem?_append_left early] at found
      -- No later write is at this offset, or this one would not be the last there.
      have kept := second.others offset.toNat fun other member same => by
        obtain ⟨j, place⟩ := List.getElem?_of_mem member
        have again := unrepeated (offsets.length + j) (by omega)
        rw [List.getElem?_append_right (by omega), Nat.add_sub_cancel_left, place] at again
        exact again (congrArg some (UInt64.toNat_inj.1 same))
      rw [kept, List.getElem?_append_left (same_length ▸ early)]
      apply first.last i offset found
      intro j behind again
      apply unrepeated j behind
      rwa [List.getElem?_append_left (List.getElem?_eq_some_iff.1 again).1]
    · rw [List.getElem?_append_right (by omega)] at found
      rw [List.getElem?_append_right (by omega), ← same_length]
      apply second.last _ offset found
      intro j behind again
      have unrepeated := unrepeated (offsets.length + j) (by omega)
      rw [List.getElem?_append_right (by omega), Nat.add_sub_cancel_left] at unrepeated
      exact unrepeated again
  · intro p outside
    rw [second.others p fun offset member => outside offset (by simp [member]),
      first.others p fun offset member => outside offset (by simp [member])]

theorem Stored.of_take {before after : List UInt8} {offsets : List Word} {data : List UInt8}
    {n : Nat} (stored : Stored before after offsets (data.take n)) (enough : offsets.length ≤ n) :
    Stored before after offsets data := by
  refine ⟨stored.length, fun i offset found unrepeated => ?_, stored.others⟩
  have inside := (List.getElem?_eq_some_iff.1 found).1
  rw [stored.last i offset found unrepeated, List.getElem?_take, if_pos (by omega)]

def consecutive (offset : Word) (count : Nat) : List Word :=
  (List.range count).map fun i => offset + .ofNat i

@[simp] theorem length_consecutive (offset : Word) (count : Nat) :
    (consecutive offset count).length = count := by
  simp [consecutive]

theorem getElem?_consecutive (offset : Word) (count i : Nat) :
    (consecutive offset count)[i]? = if i < count then some (offset + .ofNat i) else none := by
  by_cases inside : i < count <;> simp [consecutive, inside]

theorem overwrite_stored (bytes data : List UInt8) (offset : Word)
    (range : offset.toNat + room bytes offset.toNat data < 0x10000000000000000) :
    Stored bytes (overwrite bytes offset.toNat data)
      (consecutive offset (room bytes offset.toNat data)) data := by
  have placed := getElem?_overwrite bytes offset.toNat data
  generalize room bytes offset.toNat data = count at *
  constructor
  · exact length_overwrite ..
  · intro i place found _
    rw [getElem?_consecutive] at found
    split at found
    · rename_i inside
      cases found
      rw [Word.toNat_add_ofNat (by omega), placed, if_pos (by omega), Nat.add_sub_cancel_left]
    · cases found
  · intro p outside
    rw [placed, if_neg]
    rintro ⟨from_offset, before⟩
    have member : offset + .ofNat (p - offset.toNat) ∈ consecutive offset count := by
      rw [List.mem_iff_getElem?]
      exact ⟨p - offset.toNat, by rw [getElem?_consecutive, if_pos (by omega)]⟩
    apply outside _ member
    rw [Word.toNat_add_ofNat (by omega)]
    omega

end Storage

end BinaryAtlas
