import BinaryAtlas.Proofs.SegmentMap.Writing
import BinaryAtlas.Proofs.Space.Keeping
import BinaryAtlas.Space.Bytes

/-!
Writing to a mapped space. Telling of a write and recording it leaves the bytes alone, so what holds
of segments holds of the space.
-/

set_option autoImplicit false

namespace BinaryAtlas

namespace Space

def mapping (s : Space) : Backend × SegmentMap × Storage := (s.backend, s.map, s.storage)

/-- To record an action and tell of it leaves the bytes and what they depend on. -/
theorem announced (action : UndoAction) (events : List ChangeEvent) (count : Nat) (s : Space) :
    ((do record action; emit events; pure count : Op Nat) s).collect.2.1 = count ∧
      mapping ((do record action; emit events; pure count : Op Nat) s).collect.2.2 = mapping s := by
  constructor
  · rw [Op.collect_bind, Op.collect_bind]
    rfl
  · have kept : Op.Keeps mapping (do record action; emit events; pure count : Op Nat) :=
      Op.keeps_bind (keeps_record (fun _ _ => rfl) action) fun _ =>
        Op.keeps_bind (keeps_emit (fun _ _ => rfl) (fun _ _ => rfl) events) fun _ =>
          Op.keeps_pure count
    exact kept s

theorem write_mapping (s : Space) (a : Word) {data : List UInt8} (given : data ≠ []) :
    ((write a data) s).collect.2.1 = (s.backend.write s.map s.storage a data).2 ∧
      mapping ((write a data) s).collect.2.2 =
        (s.backend, s.map, (s.backend.write s.map s.storage a data).1) := by
  have nonempty : data.isEmpty = false := by simpa using given
  unfold write
  simp only [nonempty, Bool.false_eq_true, if_false]
  rw [Op.collect_read_bind, Op.collect_update_bind]
  by_cases refused : (s.backend.write s.map s.storage a data).2 = 0
  · simp only [refused, if_true]
    exact ⟨rfl, rfl⟩
  · simp only [refused, if_false]
    exact announced _ _ _ _

theorem mapped_write {s : Space} {label : String} (mapped : s.backend = .mapped label) (a : Word)
    (data : List UInt8) :
    ((write a data) s).collect.2.1 = (s.map.write s.storage a data).2 ∧
      mapping ((write a data) s).collect.2.2 =
        (.mapped label, s.map, (s.map.write s.storage a data).1) := by
  by_cases given : data = []
  · subst given
    rw [SegmentMap.write_nil, ← mapped]
    exact ⟨rfl, rfl⟩
  · have wrote := write_mapping s a given
    simpa only [mapped, Backend.write] using wrote

/-- A write to a mapped space over memory takes the bytes of the longest run of addresses that can
be written and are stored, and puts each where its address is stored. If no stored byte is written
twice, what was written can be read back; addresses that show other stored bytes read as before. -/
theorem write_correct {s : Space} {label : String} (mapped : s.backend = .mapped label)
    (built : s.map.Built) (memory : s.storage.medium = .memory) (a : Word) (data : List UInt8) :
    let wrote := s.map.write s.storage a data
    let after := ((write a data) s).collect.2.2
    ∃ offsets : List Word,
      LongestPrefix (onward? (s.map.writableOffset? s.storage.size) a) data.length offsets ∧
      wrote.2 = offsets.length ∧ ((write a data) s).collect.2.1 = wrote.2 ∧
      after.storage = wrote.1 ∧ wrote.1.size = s.storage.size ∧
      (∀ (i : Nat) (offset : Word), offsets[i]? = some offset →
        (∀ j, i < j → offsets[j]? ≠ some offset) →
          wrote.1.contents[offset.toNat]? = data[i]?) ∧
      (∀ p : Nat, (∀ offset ∈ offsets, offset.toNat ≠ p) →
        wrote.1.contents[p]? = s.storage.contents[p]?) ∧
      (offsets.Nodup → after.read a offsets.length = data.take offsets.length) ∧
      ∀ b, (∀ offset ∈ offsets, s.map.backing? b ≠ some offset) →
        after.read b 1 = s.read b 1 := by
  intro wrote after
  have sound := SegmentMap.built_sound built
  obtain ⟨offsets, places, still_memory, count, stored⟩ :=
    SegmentMap.write_places sound memory a data
  -- Telling of the write and recording it change neither the bytes nor where they show.
  obtain ⟨answer, state⟩ := mapped_write mapped a data
  have backend : after.backend = .mapped label := congrArg Prod.fst state
  have map : after.map = s.map := congrArg (·.2.1) state
  have storage : after.storage = wrote.1 := congrArg (·.2.2) state
  have reads (b : Word) (length : Nat) : after.read b length = s.map.read wrote.1 b length := by
    rw [read, backend, map, storage, Backend.read]
  refine ⟨offsets, places, count, answer, storage, stored.length, stored.last, stored.others,
    ?_, ?_⟩
  · intro distinct
    rw [reads]
    exact SegmentMap.read_written sound still_memory places stored distinct
  · intro b elsewhere
    have unchanged := SegmentMap.read_elsewhere sound memory still_memory stored elsewhere
    rw [reads, unchanged, read, mapped, Backend.read]

def nestedSpace : Space :=
  { backend := .mapped "", storage := .inMemory [1, 2, 3, 4, 5, 6, 7, 8],
    map := SegmentMap.nestedMap, metadata := .empty, functions := .empty, undoLog := .empty,
    scheduler := .initial, architecture := none, config := {}, parentView := none,
    bulk := ⟨0, []⟩, idsMade := 0 }

theorem nested_write_correct :
    ((write 0x12 [10, 20, 30, 40, 50, 60, 70, 80]) nestedSpace).collect.2.1 = 6 ∧
      (((write 0x12 [10, 20, 30, 40, 50, 60, 70, 80]) nestedSpace).collect.2.2).read 0x12 6 =
        [10, 20, 30, 40, 50, 60] := by
  obtain ⟨offsets, places, count, answer, -, -, -, -, readable, -⟩ :=
    write_correct (s := nestedSpace) rfl SegmentMap.nestedMap_built rfl 0x12
      [10, 20, 30, 40, 50, 60, 70, 80]
  have expected : LongestPrefix (onward? (nestedSpace.map.writableOffset? 8) 0x12) 8
      [2, 3, 0, 1, 6, 7] :=
    ⟨by decide, by decide +kernel, by decide +kernel⟩
  obtain rfl := places.unique expected
  exact ⟨answer.trans count, readable (by decide)⟩

end Space

end BinaryAtlas
