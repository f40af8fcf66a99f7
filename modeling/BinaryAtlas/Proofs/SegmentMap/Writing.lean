import BinaryAtlas.Proofs.SegmentMap.Reading

/-!
Writing through segments puts one byte after the other where its address is stored, up to the first
address that cannot be written.
-/

set_option autoImplicit false

namespace BinaryAtlas

namespace SegmentMap

/-- Where the byte of an address is stored, in effect and whether or not the storage reaches it. -/
def backing? (m : SegmentMap) (a : Word) : Option Word :=
  (m.at? a).bind (·.dataOffsetOf? a)

def writableOffset? (m : SegmentMap) (size : Nat) (a : Word) : Option Word :=
  if (m.at? a).any (·.isWritable) then (m.backing? a).filter (·.toNat < size) else none

variable {m : SegmentMap} {storage : Storage}

theorem onward?_writableOffset? (sound : m.Sound) {a stop : Word} {s : Segment}
    (found : m.span? a = some (s, stop)) (size : Nat) {i : Nat}
    (inside : a.toNat + i < stop.toNat) :
    onward? (m.writableOffset? size) a i =
      if s.isWritable ∧ a.toNat + i < s.start.toNat + s.dataLength.toNat ∧
          (s.dataOffset + (a - s.start)).toNat + i < size
      then some (s.dataOffset + (a - s.start) + .ofNat i) else none := by
  obtain ⟨range, governed⟩ := at?_onward sound found inside
  obtain ⟨from_start, _, _⟩ := span?_places sound found
  have backed := Segment.dataOffsetOf?_onward (span?_eq_some sound found).1 from_start range
  rw [onward?_of_lt _ range]
  simp only [writableOffset?, backing?, governed, Option.any_some, Option.bind_some, backed]
  by_cases stored : a.toNat + i < s.start.toNat + s.dataLength.toNat
  · have offset := toNat_offset sound found stored
    by_cases reached : (s.dataOffset + (a - s.start)).toNat + i < size
    · simp only [stored, if_true, Option.filter_some, offset, reached, decide_true, and_true]
    · simp only [stored, if_true, Option.filter_some, offset, reached, decide_false, and_false,
        Bool.false_eq_true, if_false, ite_self]
  · simp only [stored, if_false, Option.filter_none, false_and, and_false, ite_self]

theorem write_nil (m : SegmentMap) (storage : Storage) (a : Word) :
    m.write storage a [] = (storage, 0) := by
  rw [write]
  split <;> simp

theorem write_span (storage : Storage) (sound : m.Sound) {a stop : Word} {s : Segment}
    (found : m.span? a = some (s, stop)) {data : List UInt8} {want : Nat}
    (want_eq : want =
      min data.length (min (s.start.toNat + s.dataLength.toNat) stop.toNat - a.toNat)) :
    m.write storage a data =
      if s.isWritable ∧ want ≠ 0 then
        let wrote := storage.write (s.dataOffset + (a - s.start)) (data.take want)
        if wrote.2 < want then wrote
        else
          let rest := m.write wrote.1 (a + .ofNat want) (data.drop want)
          (rest.1, want + rest.2)
      else (storage, 0) := by
  obtain ⟨from_start, before, _⟩ := span?_places sound found
  have dataStop := (span?_eq_some sound found).1.dataStop
  have least := Word.toNat_min (s.start + s.dataLength) stop
  rw [dataStop] at least
  rw [write]
  simp only [found, Bool.and_eq_true, decide_eq_true_eq]
  generalize min (s.start + s.dataLength) stop = last at *
  by_cases inside : a.toNat < last.toNat
  · have room : (last - a).toNat = last.toNat - a.toNat :=
      UInt64.toNat_sub_of_le _ _ (UInt64.le_iff_toNat_le.2 (by omega))
    have want_room : min data.length (last - a).toNat = want := by
      rw [room, want_eq, least]
    simp only [UInt64.lt_iff_toNat_lt, inside, and_true, want_room]
    by_cases done : want = 0
    · simp [done]
    · simp [done]
  · have nothing : want = 0 := by omega
    simp [UInt64.lt_iff_toNat_lt, inside, nothing]

/-- A piece of a write that stays within a span and its stored part is taken as far as the storage
reaches. -/
theorem write_piece (sound : m.Sound) (memory : storage.medium = .memory) {a stop : Word}
    {s : Segment} (found : m.span? a = some (s, stop)) (writable : s.isWritable)
    (piece : List UInt8) (wanted : piece.length ≠ 0)
    (governed : a.toNat + piece.length ≤ stop.toNat)
    (backed : a.toNat + piece.length ≤ s.start.toNat + s.dataLength.toNat)
    {wrote : Storage × Nat}
    (wrote_eq : wrote = storage.write (s.dataOffset + (a - s.start)) piece) :
    wrote.1.medium = .memory ∧ wrote.2 ≤ piece.length ∧
      Storage.Stored storage.contents wrote.1.contents
        (Storage.consecutive (s.dataOffset + (a - s.start)) wrote.2) piece ∧
      (∀ i < wrote.2, onward? (m.writableOffset? storage.size) a i =
        (Storage.consecutive (s.dataOffset + (a - s.start)) wrote.2)[i]?) ∧
      (wrote.2 < piece.length → onward? (m.writableOffset? storage.size) a wrote.2 = none) := by
  obtain ⟨from_start, _, _⟩ := span?_places sound found
  have wellFormed := (span?_eq_some sound found).1
  have within := wellFormed.within
  have first := (Segment.dataOffsetOf?_stored (a := a) wellFormed from_start (by omega)).2
  have items {i : Nat} (inside : a.toNat + i < stop.toNat) :=
    onward?_writableOffset? sound found storage.size inside
  have range : (s.dataOffset + (a - s.start)).toNat + piece.length < 0x10000000000000000 := by
    omega
  generalize s.dataOffset + (a - s.start) = offset at *
  obtain ⟨still_memory, contents, count⟩ := Storage.write_memory memory offset piece
  rw [← wrote_eq] at still_memory contents count
  have count_eq : wrote.2 = min piece.length (storage.size - offset.toNat) := count
  have stored := Storage.overwrite_stored storage.contents piece offset (by omega)
  rw [← contents, ← count] at stored
  refine ⟨still_memory, by omega, stored, fun i inside => ?_, fun short => ?_⟩
  · rw [items (by omega), if_pos ⟨writable, by omega, by omega⟩, Storage.getElem?_consecutive,
      if_pos inside]
  · rw [items (by omega), if_neg (by omega)]

theorem write_places (sound : m.Sound) (memory : storage.medium = .memory) (a : Word)
    (data : List UInt8) :
    ∃ offsets, LongestPrefix (onward? (m.writableOffset? storage.size) a) data.length offsets ∧
      (m.write storage a data).1.medium = .memory ∧
      (m.write storage a data).2 = offsets.length ∧
      Storage.Stored storage.contents (m.write storage a data).1.contents offsets data := by
  induction n_eq : data.length using Nat.strongRecOn generalizing storage a data with
  | ind n ih =>
    subst n_eq
    cases found : m.span? a with
    | none =>
      have none : m.writableOffset? storage.size a = .none := by
        simp [writableOffset?, (span?_eq_none_iff m a).1 found]
      rw [write, found]
      exact ⟨[], .nil ((onward?_zero _ a).trans none), memory, rfl, Storage.stored_nil ..⟩
    | some span =>
      obtain ⟨s, stop⟩ := span
      obtain ⟨_, before, _⟩ := span?_places sound found
      have := stop.toNat_lt
      rw [write_span storage sound found rfl]
      generalize want_eq : min data.length
        (min (s.start.toNat + s.dataLength.toNat) stop.toNat - a.toNat) = want
      by_cases takes : s.isWritable ∧ want ≠ 0
      · rw [if_pos takes]
        have taken : (data.take want).length = want := by
          rw [List.length_take]
          omega
        obtain ⟨still_memory, bounded, stored, agrees, ends⟩ := write_piece sound memory found
          takes.1 (data.take want) (by rw [taken]; exact takes.2) (by omega) (by omega) rfl
        rw [taken] at bounded ends
        generalize storage.write (s.dataOffset + (a - s.start)) (data.take want) = wrote at *
        generalize s.dataOffset + (a - s.start) = offset at *
        simp only
        by_cases short : wrote.2 < want
        · rw [if_pos short]
          refine ⟨Storage.consecutive offset wrote.2, ⟨?_, ?_, ?_⟩, still_memory, by simp, ?_⟩
          · rw [Storage.length_consecutive]
            omega
          · simpa using agrees
          · intro _
            rw [Storage.length_consecutive]
            exact ends short
          · exact stored.of_take (by rw [Storage.length_consecutive]; omega)
        · rw [if_neg short]
          -- The size is the same for the rest of the write, so the same addresses can be written.
          have full : wrote.2 = want := by omega
          rw [full] at stored agrees
          obtain ⟨offsets, places, last_memory, count, more⟩ := ih (data.drop want).length
            (by rw [List.length_drop]; omega) still_memory (a + .ofNat want) (data.drop want) rfl
          have same_size : wrote.1.size = storage.size := stored.length
          refine ⟨Storage.consecutive offset want ++ offsets, ?_, last_memory, ?_, ?_⟩
          · apply LongestPrefix.append
            · rw [Storage.length_consecutive]
              omega
            · simpa using agrees
            · have range : a.toNat + want < 0x10000000000000000 := by omega
              rw [Storage.length_consecutive, ← List.length_drop]
              simpa only [onward?_add _ range, ← same_size] using places
          · rw [List.length_append, Storage.length_consecutive, count]
          · have whole := stored.append more (by rw [Storage.length_consecutive, taken])
            rwa [List.take_append_drop] at whole
      · rw [if_neg takes]
        refine ⟨[], ?_, memory, rfl, Storage.stored_nil ..⟩
        rcases Nat.eq_zero_or_pos data.length with none | some
        · rw [none]
          exact .nil_limit
        · apply LongestPrefix.nil
          rw [onward?_writableOffset? sound found storage.size (by omega), if_neg]
          rintro ⟨writable, backed, _⟩
          exact takes ⟨writable, by omega⟩

theorem byteAt?_of_backing {a offset : Word} (backed : m.backing? a = some offset) :
    m.byteAt? storage a = storage.contents[offset.toNat]? := by
  obtain ⟨s, found, place⟩ := Option.bind_eq_some_iff.1 backed
  simp only [byteAt?, found, place]

theorem byteAt?_of_unbacked {a : Word} (unbacked : m.backing? a = none) (other : Storage) :
    m.byteAt? other a = m.byteAt? storage a := by
  unfold byteAt?
  cases found : m.at? a with
  | none => rfl
  | some s =>
    have place : s.dataOffsetOf? a = none := by simpa [backing?, found] using unbacked
    simp only [place]

theorem backing?_of_writableOffset? {size : Nat} {a offset : Word}
    (writable : m.writableOffset? size a = some offset) : m.backing? a = some offset := by
  unfold writableOffset? at writable
  split at writable
  · exact (Option.filter_eq_some_iff.1 writable).1
  · cases writable

theorem writableOffset?_lt {size : Nat} {a offset : Word}
    (writable : m.writableOffset? size a = some offset) : offset.toNat < size := by
  unfold writableOffset? at writable
  split at writable
  · simpa using (Option.filter_eq_some_iff.1 writable).2
  · cases writable

theorem read_written (sound : m.Sound) {after : Storage} (memory : after.medium = .memory)
    {size : Nat} {a : Word} {data : List UInt8} {offsets : List Word} {bytes : List UInt8}
    (places : LongestPrefix (onward? (m.writableOffset? size) a) data.length offsets)
    (stored : Storage.Stored bytes after.contents offsets data) (distinct : offsets.Nodup) :
    m.read after a offsets.length = data.take offsets.length := by
  have taken : (data.take offsets.length).length = offsets.length := by
    have := places.bounded
    rw [List.length_take]
    omega
  apply (read_places sound memory a offsets.length).unique
  refine ⟨by omega, fun i inside => ?_, fun short => by omega⟩
  rw [taken] at inside
  have place := places.agrees i inside
  rw [List.getElem?_eq_getElem inside] at place
  -- Among distinct offsets each write is the last at its offset.
  have unrepeated : ∀ j, i < j → offsets[j]? ≠ some offsets[i] := by
    intro j behind again
    have := (List.getElem?_inj inside distinct).1
      ((List.getElem?_eq_getElem inside).trans again.symm)
    omega
  have byte := stored.last i _ (List.getElem?_eq_getElem inside) unrepeated
  unfold onward? at place ⊢
  split at place
  · rename_i range
    rw [if_pos range, byteAt?_of_backing (backing?_of_writableOffset? place), byte,
      List.getElem?_take, if_pos inside]
  · cases place

theorem read_elsewhere (sound : m.Sound) {before after : Storage} (memory : before.medium = .memory)
    (still_memory : after.medium = .memory) {data : List UInt8} {offsets : List Word}
    (stored : Storage.Stored before.contents after.contents offsets data) {a : Word}
    (elsewhere : ∀ offset ∈ offsets, m.backing? a ≠ some offset) :
    m.read after a 1 = m.read before a 1 := by
  have same : m.byteAt? after a = m.byteAt? before a := by
    cases backed : m.backing? a with
    | none => exact byteAt?_of_unbacked backed after
    | some offset =>
      rw [byteAt?_of_backing backed, byteAt?_of_backing backed]
      apply stored.others
      intro other member equal
      exact elsewhere other member (backed.trans (congrArg some (UInt64.toNat_inj.1 equal).symm))
  apply (read_places sound still_memory a 1).unique
  apply (read_places sound memory a 1).congr
  intro i first
  obtain rfl : i = 0 := by omega
  rw [onward?_zero, onward?_zero, same]

end SegmentMap

end BinaryAtlas
