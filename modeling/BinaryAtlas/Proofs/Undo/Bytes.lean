import BinaryAtlas.Proofs.Undo.Replaying

/-!
Writes, insertions and removals link the bytes before and after them: what is noted of each is
enough to do it again and to take it back.
-/

set_option autoImplicit false

namespace BinaryAtlas

open Space

variable {backend : Backend} {t : Tables} {a : Word}

theorem Tables.Sound.withBytes (sound : t.Sound) (bytes : List UInt8) :
    ({ t with bytes := bytes } : Tables).Sound :=
  ⟨sound.map, sound.userSegments, sound.userSections, sound.comments⟩

theorem replays_write {before data bytes : List UInt8} (given : data ≠ [])
    (wrote : ∀ s : Space, s.Owns backend → s.tables = t →
      (s.backend.write s.map s.storage a data).1.medium = .memory ∧
        (s.backend.write s.map s.storage a data).1.contents = bytes) :
    Replays backend (.write a before data) t { t with bytes := bytes } := by
  refine replays_of_settles fun s owns replaying tables => ?_
  obtain ⟨memory, contents⟩ := wrote s owns tables
  have settles := write_settles (s := s) (a := a) given rfl
  simp only [noted, record_of_replaying replaying, ite_self] at settles
  refine ⟨_, settles.discard, ⟨owns.backend, memory, owns.numbered⟩, rfl, ?_⟩
  rw [← tables, ← contents]
  rfl

theorem replays_raw_write (t : Tables) (a : Word) (before : List UInt8) {data : List UInt8}
    (given : data ≠ []) :
    Replays .raw (.write a before data) t
      { t with bytes := Storage.overwrite t.bytes a.toNat data } := by
  apply replays_write given
  rintro s owns rfl
  obtain ⟨memory, contents, -⟩ := Storage.write_memory owns.memory a data
  rw [owns.backend]
  exact ⟨memory, contents⟩

theorem replays_mapped_write {label : String} {before data bytes : List UInt8}
    {offsets : List Word} (sound : t.map.Sound) (given : data ≠ [])
    (places : LongestPrefix (onward? (t.map.writableOffset? t.bytes.length) a) data.length offsets)
    (stored : Storage.Stored t.bytes bytes offsets data) :
    Replays (.mapped label) (.write a before data) t { t with bytes := bytes } := by
  apply replays_write given
  rintro s owns rfl
  have sound : s.map.Sound := ⟨sound.auto, sound.user⟩
  obtain ⟨others, again, memory, -, wrote⟩ :=
    SegmentMap.write_places sound owns.memory a data
  obtain rfl : others = offsets := again.unique places
  rw [owns.backend]
  exact ⟨memory, wrote.unique stored⟩

theorem replays_insert {data : List UInt8} (given : data ≠ []) (inside : a.toNat ≤ t.bytes.length) :
    Replays .raw (.insert a data) t
      { t with bytes := t.bytes.take a.toNat ++ data ++ t.bytes.drop a.toNat } := by
  refine replays_of_settles fun s owns replaying tables => ?_
  subst tables
  have inserted : (s.storage.insert a data).1 = _ := Storage.insert_memory owns.memory inside data
  have settles := insert_settles (s := s) (a := a) given rfl
  simp only [noted, record_of_replaying replaying, ite_self, owns.backend, inserted] at settles
  exact ⟨_, settles.discard, ⟨rfl, owns.memory, owns.numbered⟩, rfl, rfl⟩

theorem replays_remove {bytes : List UInt8} (given : bytes ≠ [])
    (bounded : bytes.length < 0x10000000000000000)
    (inside : a.toNat + bytes.length ≤ t.bytes.length) :
    Replays .raw (.remove a bytes) t
      { t with bytes := t.bytes.take a.toNat ++ t.bytes.drop (a.toNat + bytes.length) } := by
  refine replays_of_settles fun s owns replaying tables => ?_
  subst tables
  have nonempty := List.length_pos_iff.2 given
  have length_eq : (Word.ofNatCapped bytes.length).toNat = bytes.length := by
    rw [Word.toNat_ofNatCapped]
    omega
  have wanted : Word.ofNatCapped bytes.length ≠ 0 := by
    intro zero
    rw [zero] at length_eq
    exact absurd length_eq.symm (Nat.ne_of_gt nonempty)
  have size_eq : s.storage.size = s.tables.bytes.length := rfl
  have removed_all : min (Word.ofNatCapped bytes.length).toNat (s.storage.size - a.toNat) =
      bytes.length := by
    rw [length_eq]
    omega
  have accepted : a.toNat < s.storage.size := by omega
  have removed := Storage.remove_memory owns.memory accepted (.ofNatCapped bytes.length) removed_all
  have settles := remove_settles (s := s) (a := a) wanted rfl
  simp only [noted, record_of_replaying replaying, ite_self, owns.backend, removed] at settles
  exact ⟨_, settles.discard, ⟨rfl, owns.memory, owns.numbered⟩, rfl, rfl⟩

section Links

variable (sound : t.Sound)
include sound

theorem linked_insert {data : List UInt8} (given : data ≠ [])
    (bounded : data.length < 0x10000000000000000) (inside : a.toNat ≤ t.bytes.length) :
    Linked .raw t (.insert a data)
      { t with bytes := t.bytes.take a.toNat ++ data ++ t.bytes.drop a.toNat } := by
  refine linked_of_replays sound (sound.withBytes _) (replays_insert given inside)
    (replays_remove given bounded ?_) (by rw [Storage.removed_inserted t.bytes data inside])
  simp
  omega

theorem linked_remove {count : Nat} (wanted : count ≠ 0) (bounded : count < 0x10000000000000000)
    (inside : a.toNat + count ≤ t.bytes.length) :
    Linked .raw t (.remove a (Storage.slice t.bytes a.toNat count))
      { t with bytes := t.bytes.take a.toNat ++ t.bytes.drop (a.toNat + count) } := by
  have length_eq : (Storage.slice t.bytes a.toNat count).length = count := by
    simp [Storage.slice]
    omega
  have given : Storage.slice t.bytes a.toNat count ≠ [] := by
    intro nothing
    rw [nothing] at length_eq
    exact wanted length_eq.symm
  have redone := replays_remove (t := t) (a := a) given (by omega) (by omega)
  rw [length_eq] at redone
  refine linked_of_replays sound (sound.withBytes _) redone (replays_insert given ?_)
    (by rw [Storage.inserted_removed t.bytes (by omega)])
  simp
  omega

theorem linked_raw_write (a : Word) {data : List UInt8}
    (taken : Storage.room t.bytes a.toNat data ≠ 0) :
    Linked .raw t
      (.write a ((Storage.slice t.bytes a.toNat data.length).take
        (Storage.room t.bytes a.toNat data)) (data.take (Storage.room t.bytes a.toNat data)))
      { t with bytes := Storage.overwrite t.bytes a.toNat data } := by
  have given : data.take (Storage.room t.bytes a.toNat data) ≠ [] := by
    apply List.ne_nil_of_length_pos
    rw [List.length_take]
    unfold Storage.room at *
    omega
  have saved : (Storage.slice t.bytes a.toNat data.length).take
      (Storage.room t.bytes a.toNat data) ≠ [] := by
    apply List.ne_nil_of_length_pos
    rw [List.length_take, Storage.slice, List.length_take, List.length_drop]
    unfold Storage.room at *
    omega
  have redone := replays_raw_write t a ((Storage.slice t.bytes a.toNat data.length).take
    (Storage.room t.bytes a.toNat data)) given
  rw [Storage.overwrite_take_room] at redone
  exact linked_of_replays sound (sound.withBytes _) redone (replays_raw_write _ a _ saved)
    (by rw [Storage.overwrite_undone])

theorem linked_mapped_write {label : String} {data old bytes : List UInt8} {offsets : List Word}
    (taken : offsets ≠ [])
    (places : LongestPrefix (onward? (t.map.writableOffset? t.bytes.length) a) data.length offsets)
    (stored : Storage.Stored t.bytes bytes offsets data) (old_length : old.length = offsets.length)
    (saved : ∀ (i : Nat) (offset : Word), offsets[i]? = some offset →
      old[i]? = t.bytes[offset.toNat]?) :
    Linked (.mapped label) t (.write a old (data.take offsets.length))
      { t with bytes := bytes } := by
  have nonempty := List.length_pos_iff.2 taken
  have bounded := places.bounded
  have taken_length : (data.take offsets.length).length = offsets.length := by
    rw [List.length_take]
    omega
  refine linked_of_replays sound (sound.withBytes bytes)
    (replays_mapped_write sound.map (List.ne_nil_of_length_pos (by omega)) ?_ stored.take)
    (replays_mapped_write sound.map (List.ne_nil_of_length_pos (by omega)) ?_
      (stored.reversed saved)) rfl
  · rw [taken_length]
    exact places.whole
  · rw [old_length, stored.length]
    exact places.whole

end Links

/-- A read before a write has the bytes that the write replaces, one for each place. -/
theorem saved_by_read {m : SegmentMap} {storage : Storage} (sound : m.Sound)
    (memory : storage.medium = .memory) {length : Nat} {offsets : List Word}
    (places : LongestPrefix (onward? (m.writableOffset? storage.size) a) length offsets) :
    ((m.read storage a length).take offsets.length).length = offsets.length ∧
      ∀ (i : Nat) (offset : Word), offsets[i]? = some offset →
        ((m.read storage a length).take offsets.length)[i]? =
          storage.contents[offset.toNat]? := by
  have bytes := SegmentMap.read_places sound memory a length
  have bounded := places.bounded
  have stored {i : Nat} {offset : Word} (found : offsets[i]? = some offset) :
      onward? (m.byteAt? storage) a i = storage.contents[offset.toNat]? ∧
        offset.toNat < storage.size := by
    have place := places.agrees i (List.getElem?_eq_some_iff.1 found).1
    rw [found] at place
    unfold onward? at place ⊢
    split at place
    · rename_i range
      have backed := SegmentMap.backing?_of_writableOffset? place
      rw [if_pos range, SegmentMap.byteAt?_of_backing backed]
      exact ⟨rfl, SegmentMap.writableOffset?_lt place⟩
    · cases place
  have reaches : offsets.length ≤ (m.read storage a length).length := by
    by_contra short
    have ends := bytes.ends (by omega)
    obtain ⟨offset, found⟩ : ∃ offset, offsets[(m.read storage a length).length]? = some offset :=
      ⟨_, List.getElem?_eq_getElem (by omega)⟩
    obtain ⟨byte, inside⟩ := stored found
    rw [ends] at byte
    have := List.getElem?_eq_none_iff.1 byte.symm
    exact absurd inside (Nat.not_lt.2 this)
  constructor
  · rw [List.length_take]
    omega
  · intro i offset found
    have inside := (List.getElem?_eq_some_iff.1 found).1
    rw [List.getElem?_take, if_pos inside, ← bytes.agrees i (by omega), (stored found).1]

theorem written_links {backend : Backend} {s : Space} {data : List UInt8} {storage : Storage}
    {count : Nat} (owns : s.Owns backend) (sound : s.tables.Sound)
    (wrote : s.backend.write s.map s.storage a data = (storage, count)) :
    storage.medium = .memory ∧
      (count ≠ 0 → Linked backend s.tables
        (.write a ((s.read a data.length).take count) (data.take count))
        { s.tables with bytes := storage.contents }) ∧
      (count = 0 → storage.contents = s.storage.contents) := by
  rw [owns.backend] at wrote
  cases backend with
  | raw =>
    obtain ⟨memory, contents, taken⟩ := Storage.write_memory owns.memory a data
    have wrote : s.storage.write a data = (storage, count) := wrote
    simp only [wrote] at memory contents taken
    have read : s.read a data.length = Storage.slice s.storage.contents a.toNat data.length := by
      simp only [Space.read, owns.backend, Backend.read, Storage.read, owns.memory]
    refine ⟨memory, fun some => ?_, fun none => ?_⟩
    · rw [contents, taken, read]
      exact linked_raw_write sound a (taken ▸ some)
    · rw [contents]
      exact Storage.overwrite_of_no_room (taken.symm.trans none)
  | mapped label =>
    have map_sound : s.map.Sound := ⟨sound.map.auto, sound.map.user⟩
    obtain ⟨offsets, places, memory, taken, stored⟩ :=
      SegmentMap.write_places map_sound owns.memory a data
    have wrote : s.map.write s.storage a data = (storage, count) := wrote
    simp only [wrote] at memory taken stored
    have read : s.read a data.length = s.map.read s.storage a data.length := by
      simp only [Space.read, owns.backend, Backend.read]
    obtain ⟨old_length, saved⟩ := saved_by_read map_sound owns.memory places
    refine ⟨memory, fun some => ?_, fun none => ?_⟩
    · rw [taken, read]
      refine linked_mapped_write sound ?_ places stored old_length saved
      rintro rfl
      exact some taken
    · have nothing : offsets = [] := List.length_eq_zero_iff.1 (taken.symm.trans none)
      rw [nothing] at stored
      exact stored.unique (Storage.stored_nil ..)

theorem inserted_links {backend : Backend} {s : Space} {data : List UInt8} {storage : Storage}
    {count : Nat} (owns : s.Owns backend) (sound : s.tables.Sound) (given : data ≠ [])
    (bounded : data.length < 0x10000000000000000)
    (inserted : s.backend.insert s.storage a data = (storage, count)) :
    storage.medium = .memory ∧
      (count ≠ 0 → Linked backend s.tables (.insert a (data.take count))
        { s.tables with bytes := storage.contents }) ∧
      (count = 0 → storage.contents = s.storage.contents) := by
  rw [owns.backend] at inserted
  cases backend with
  | mapped label =>
    cases inserted
    exact ⟨owns.memory, fun some => absurd rfl some, fun _ => rfl⟩
  | raw =>
    simp only [Backend.insert, Storage.insert, owns.memory] at inserted
    split at inserted
    · rename_i inside
      cases inserted
      refine ⟨rfl, fun _ => ?_, fun none => absurd (List.length_eq_zero_iff.1 none) given⟩
      rw [List.take_length]
      exact linked_insert sound given bounded inside
    · cases inserted
      exact ⟨owns.memory, fun some => absurd rfl some, fun _ => rfl⟩

theorem removed_links {backend : Backend} {s : Space} {length count : Word} {storage : Storage}
    (owns : s.Owns backend) (sound : s.tables.Sound)
    (removed : s.backend.remove s.storage a length = (storage, count)) :
    storage.medium = .memory ∧
      (count ≠ 0 → Linked backend s.tables
        (.remove a ((s.read a length.toNat).take count.toNat))
        { s.tables with bytes := storage.contents }) ∧
      (count = 0 → storage.contents = s.storage.contents) := by
  rw [owns.backend] at removed
  cases backend with
  | mapped label =>
    cases removed
    exact ⟨owns.memory, fun some => absurd rfl some, fun _ => rfl⟩
  | raw =>
    simp only [Backend.remove, Storage.remove, owns.memory] at removed
    split at removed
    · rename_i inside
      cases removed
      generalize count_eq : min length.toNat (s.storage.size - a.toNat) = count
      have range : count < 0x10000000000000000 := by
        have := length.toNat_lt
        omega
      have word : (Word.ofNatCapped count).toNat = count := by
        rw [Word.toNat_ofNatCapped]
        omega
      have saved : (s.read a length.toNat).take count =
          Storage.slice s.storage.contents a.toNat count := by
        simp only [Space.read, owns.backend, Backend.read, Storage.read, owns.memory,
          Storage.slice, List.take_take]
        rw [Nat.min_eq_left (by omega)]
      have size_eq : s.storage.size = s.tables.bytes.length := rfl
      refine ⟨rfl, fun some => ?_, fun none => ?_⟩
      · rw [word, saved]
        refine linked_remove sound ?_ range (by omega)
        rintro rfl
        exact some rfl
      · have nothing : count = 0 := by
          rw [← word, none]
          rfl
        simp [nothing]
    · cases removed
      exact ⟨owns.memory, fun some => absurd rfl some, fun _ => rfl⟩

end BinaryAtlas
