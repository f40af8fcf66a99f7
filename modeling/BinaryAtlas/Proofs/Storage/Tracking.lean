import BinaryAtlas.Proofs.PatchLog.Refinement
import BinaryAtlas.Proofs.Storage.Bytes

/-!
Where the bytes of memory come from. Through writes, insertions and removals in any order, a byte
that the log calls untouched is one of the first bytes, and such bytes keep their order.
-/

set_option autoImplicit false

namespace BinaryAtlas

inductive StorageEdit where
  | write (offset : Word) (data : List UInt8)
  | insert (offset : Word) (data : List UInt8)
  | remove (offset length : Word)

namespace StorageEdit

def apply (s : Storage) : StorageEdit → Storage
  | write offset data => (s.write offset data).1
  | insert offset data => (s.insert offset data).1
  | remove offset length => (s.remove offset length).1

end StorageEdit

namespace Storage

/-- Memory that had these bytes at first and was edited, always shorter than `2 ^ 63` bytes. -/
inductive Reached (initial : List UInt8) : Storage → Prop where
  | start (small : initial.length < 0x8000000000000000) : Reached initial (inMemory initial)
  | edit {s : Storage} (reached : Reached initial s) (edit : StorageEdit)
      (small : (edit.apply s).size < 0x8000000000000000) : Reached initial (edit.apply s)

def statusOf (s : Storage) (place : Nat) : ByteStatus := s.log.statusAt (.ofNat place)

/-- The first place of each byte that is not an inserted one is `origin`. -/
structure Tracked (initial : List UInt8) (origin : Nat → Nat) (s : Storage) : Prop where
  memory : s.medium = .memory
  small : s.size < 0x8000000000000000
  canonical : s.log.Canonical
  within : ∀ p < 0x10000000000000000, s.statusOf p ≠ .untouched → p < s.size
  inside : ∀ p < s.size, s.statusOf p ≠ .inserted → origin p < initial.length
  increasing : ∀ p q, p < q → q < s.size → s.statusOf p ≠ .inserted → s.statusOf q ≠ .inserted →
    origin p < origin q
  kept : ∀ p < s.size, s.statusOf p = .untouched → s.contents[p]? = initial[origin p]?

theorem tracked_inMemory {initial : List UInt8} (small : initial.length < 0x8000000000000000) :
    Tracked initial id (inMemory initial) := by
  have untouched (p : Nat) : (inMemory initial).statusOf p = .untouched := rfl
  constructor
  · rfl
  · exact small
  · exact PatchLog.canonical_empty
  · exact fun p _ modified => absurd (untouched p) modified
  · exact fun p inside _ => inside
  · exact fun p q before _ _ _ => before
  · exact fun p _ _ => rfl

/-- The bytes that an edit leaves and moves keep their first places, if they keep their order. -/
theorem Tracked.moved {initial : List UInt8} {origin : Nat → Nat} {s s' : Storage}
    (tracked : Tracked initial origin s) (memory : s'.medium = .memory)
    (small : s'.size < 0x8000000000000000) (canonical : s'.log.Canonical)
    (within : ∀ p < 0x10000000000000000, s'.statusOf p ≠ .untouched → p < s'.size)
    (back : Nat → Nat)
    (inside : ∀ p < s'.size, s'.statusOf p ≠ .inserted →
      back p < s.size ∧ s.statusOf (back p) ≠ .inserted)
    (increasing : ∀ p q, p < q → s'.statusOf p ≠ .inserted → s'.statusOf q ≠ .inserted →
      back p < back q)
    (kept : ∀ p < s'.size, s'.statusOf p = .untouched →
      s.statusOf (back p) = .untouched ∧ s'.contents[p]? = s.contents[back p]?) :
    Tracked initial (origin ∘ back) s' := by
  constructor
  · exact memory
  · exact small
  · exact canonical
  · exact within
  · intro p place old
    obtain ⟨place, old⟩ := inside p place old
    exact tracked.inside _ place old
  · intro p q before place first second
    obtain ⟨_, old_first⟩ := inside p (by omega) first
    obtain ⟨old_place, old_second⟩ := inside q place second
    exact tracked.increasing _ _ (increasing p q before first second) old_place old_first old_second
  · intro p place untouched
    obtain ⟨was_untouched, same⟩ := kept p place untouched
    obtain ⟨old_place, _⟩ := inside p place (by simp [untouched])
    exact same.trans (tracked.kept _ old_place was_untouched)

variable {s : Storage}

theorem differs_overwrite (bytes data : List UInt8) (offset query : Word) :
    PatchLog.Differs offset (slice bytes offset.toNat data.length)
        (data.take (room bytes offset.toNat data)) query ↔
      (overwrite bytes offset.toNat data)[query.toNat]? ≠ bytes[query.toNat]? := by
  have taken : (data.take (room bytes offset.toNat data)).length =
      room bytes offset.toNat data := by
    rw [List.length_take]
    exact Nat.min_eq_left (Nat.min_le_left _ _)
  have given : room bytes offset.toNat data ≤ data.length := Nat.min_le_left _ _
  rw [getElem?_overwrite]
  simp only [PatchLog.Differs, UInt64.le_iff_toNat_le, getElem?_slice, List.getElem?_take, taken]
  by_cases overwritten : offset.toNat ≤ query.toNat ∧
      query.toNat < offset.toNat + room bytes offset.toNat data
  · have place : offset.toNat + (query.toNat - offset.toNat) = query.toNat := by omega
    have early : query.toNat - offset.toNat < room bytes offset.toNat data := by omega
    have within : query.toNat - offset.toNat < data.length := by omega
    simp only [overwritten, place, early, within, if_true, true_and, and_self]
    exact ne_comm
  · have late : ¬ (offset.toNat ≤ query.toNat ∧
        query.toNat - offset.toNat < room bytes offset.toNat data) := by
      omega
    simp only [overwritten, if_false, ne_eq, not_true_eq_false, iff_false]
    exact fun differs => late ⟨differs.1, differs.2.1⟩

theorem write_statusAt (memory : s.medium = .memory) (canonical : s.log.Canonical)
    (small : s.size < 0x8000000000000000) (offset : Word) (data : List UInt8) :
    (s.write offset data).1.log.Canonical ∧ ∀ query,
      (s.write offset data).1.log.statusAt query =
        if s.log.statusAt query = .untouched ∧
            (s.write offset data).1.contents[query.toNat]? ≠ s.contents[query.toNat]?
        then .changed else s.log.statusAt query := by
  have log_eq : (s.write offset data).1.log = s.log.markDifferences offset none
      (slice s.contents offset.toNat data.length)
      (data.take (room s.contents offset.toNat data)) := by
    simp [write, written, read, memory]
  have range : offset.toNat + (data.take (room s.contents offset.toNat data)).length <
      0x10000000000000000 := by
    have := offset.toNat_lt
    have : room s.contents offset.toNat data ≤ s.size - offset.toNat := Nat.min_le_right _ _
    rw [List.length_take]
    omega
  obtain ⟨result, statuses⟩ := PatchLog.markDifferences_refines canonical offset none
    (slice s.contents offset.toNat data.length) _ range (by simp)
  rw [log_eq, (write_memory memory offset data).2.1]
  refine ⟨result, fun query => ?_⟩
  have differs := differs_overwrite s.contents data offset query
  rw [statuses]
  simp only [Option.any_none, Bool.false_eq_true, false_or, differs, and_comm]

theorem write_tracked {initial : List UInt8} {origin : Nat → Nat}
    (tracked : Tracked initial origin s) (offset : Word) (data : List UInt8) :
    Tracked initial (origin ∘ id) (s.write offset data).1 := by
  obtain ⟨result, statuses⟩ :=
    write_statusAt tracked.memory tracked.canonical tracked.small offset data
  have same_size : (s.write offset data).1.size = s.size := by
    rw [size, (write_memory tracked.memory offset data).2.1, length_overwrite, size]
  have status {p : Nat} (range : p < 0x10000000000000000) :
      (s.write offset data).1.statusOf p =
        if s.statusOf p = .untouched ∧ (s.write offset data).1.contents[p]? ≠ s.contents[p]?
        then .changed else s.statusOf p := by
    have place : (UInt64.ofNat p).toNat = p := UInt64.toNat_ofNat_of_lt' range
    rw [statusOf, statuses, place, statusOf]
  have small := tracked.small
  apply tracked.moved
  · exact (write_memory tracked.memory offset data).1
  · rwa [same_size]
  · exact result
  · intro p range modified
    rw [same_size]
    -- Past the end there is no byte before or after, so nothing there differs.
    by_contra beyond
    have old_end : s.contents[p]? = none := List.getElem?_eq_none (Nat.not_lt.1 beyond)
    have new_end : (s.write offset data).1.contents[p]? = none :=
      List.getElem?_eq_none (by rw [← size, same_size]; exact Nat.not_lt.1 beyond)
    rw [status range] at modified
    exact beyond (tracked.within p range (by simpa [old_end, new_end] using modified))
  · intro p place old
    rw [same_size] at place
    refine ⟨place, fun inserted : s.statusOf p = .inserted => old ?_⟩
    rw [status (by omega), inserted]
    simp
  · exact fun p q before _ _ => before
  · intro p place untouched
    rw [same_size] at place
    rw [status (by omega)] at untouched
    have unmarked : ¬ (s.statusOf p = .untouched ∧
        (s.write offset data).1.contents[p]? ≠ s.contents[p]?) := by
      intro marked
      simp [marked] at untouched
    rw [if_neg unmarked] at untouched
    exact ⟨untouched, by simpa [untouched] using unmarked⟩

theorem runs_end {log : PatchLog} (canonical : log.Canonical) {size : Nat}
    (within : ∀ p < 0x10000000000000000, log.statusAt (.ofNat p) ≠ .untouched → p < size) :
    ∀ run ∈ log.runs, run.stop.toNat ≤ size := by
  intro run member
  have held := (log.mem_runs_iff run).1 member
  have nonempty := UInt64.lt_iff_toNat_lt.1 (canonical.nonempty held)
  have := run.stop.toNat_lt
  have last : (UInt64.ofNat (run.stop.toNat - 1)).toNat = run.stop.toNat - 1 :=
    UInt64.toNat_ofNat_of_lt' (Nat.lt_of_le_of_lt (Nat.sub_le _ 1) this)
  have covers : run.start ≤ .ofNat (run.stop.toNat - 1) ∧
      .ofNat (run.stop.toNat - 1) < run.stop := by
    rw [UInt64.le_iff_toNat_le, UInt64.lt_iff_toNat_lt, last]
    omega
  -- The last byte of a run has its status.
  have status := PatchLog.statusAt_of_mem_runs canonical member covers
  have := within (run.stop.toNat - 1) (by omega) (status ▸ canonical.modified held)
  omega

theorem insert_statusOf {log : PatchLog} (canonical : log.Canonical) {offset : Word}
    {size count : Nat} (small : size + count < 0x8000000000000000) (accepted : offset.toNat ≤ size)
    (within : ∀ p < 0x10000000000000000, log.statusAt (.ofNat p) ≠ .untouched → p < size) :
    (log.insertShift offset (.ofNatCapped count)).Canonical ∧ ∀ p < 0x10000000000000000,
      (log.insertShift offset (.ofNatCapped count)).statusAt (.ofNat p) =
        if p < offset.toNat then log.statusAt (.ofNat p)
        else if p < offset.toNat + count then .inserted
        else log.statusAt (.ofNat (p - count)) := by
  have length_toNat : (Word.ofNatCapped count).toNat = count := by
    rw [Word.toNat_ofNatCapped]
    omega
  have ends := runs_end canonical within
  have fits : (PatchEdit.insertShift offset (.ofNatCapped count)).Fits log := by
    refine .inr ⟨by omega, fun run member _ => ?_⟩
    have := ends run member
    omega
  obtain ⟨result, statuses⟩ := PatchEdit.insertShift_applyAt canonical fits
  refine ⟨result, fun p range => ?_⟩
  have place : (UInt64.ofNat p).toNat = p := UInt64.toNat_ofNat_of_lt' range
  rw [statuses]
  simp only [PatchEdit.applyAt, UInt64.lt_iff_toNat_lt, place, length_toNat]
  by_cases moved : offset.toNat + count ≤ p
  · have back : UInt64.ofNat p - Word.ofNatCapped count = .ofNat (p - count) := by
      have old_place : (UInt64.ofNat (p - count)).toNat = p - count :=
        UInt64.toNat_ofNat_of_lt' (Nat.lt_of_le_of_lt (Nat.sub_le p count) range)
      rw [← UInt64.toNat_inj, UInt64.toNat_sub_of_le _ _ (by
        rw [UInt64.le_iff_toNat_le, place, length_toNat]
        omega), place, length_toNat, old_place]
    rw [back]
  · simp [Nat.not_le.1 moved]

theorem remove_statusOf {log : PatchLog} (canonical : log.Canonical) {offset : Word}
    {size count : Nat} (small : size < 0x8000000000000000) (inside : offset.toNat + count ≤ size)
    (within : ∀ p < 0x10000000000000000, log.statusAt (.ofNat p) ≠ .untouched → p < size) :
    (log.removeShift offset (.ofNatCapped count)).Canonical ∧ ∀ p < 0x10000000000000000,
      (log.removeShift offset (.ofNatCapped count)).statusAt (.ofNat p) =
        if p < offset.toNat then log.statusAt (.ofNat p)
        else if p + count < size then log.statusAt (.ofNat (p + count)) else .untouched := by
  have length_toNat : (Word.ofNatCapped count).toNat = count := by
    rw [Word.toNat_ofNatCapped]
    omega
  obtain ⟨result, statuses⟩ := PatchEdit.removeShift_applyAt canonical offset (.ofNatCapped count)
  refine ⟨result, fun p range => ?_⟩
  have place : (UInt64.ofNat p).toNat = p := UInt64.toNat_ofNat_of_lt' range
  rw [statuses]
  simp only [PatchEdit.applyAt, UInt64.lt_iff_toNat_lt, place]
  cases sum : Word.add? (.ofNat p) (.ofNatCapped count) with
  | none =>
    have := Word.add?_eq_none_iff.1 sum
    rw [place, length_toNat] at this
    have gone : ¬ p + count < size := by omega
    simp [gone]
  | some old =>
    have old_toNat := Word.add?_eq_some_iff.1 sum
    rw [place, length_toNat] at old_toNat
    have old_eq : old = .ofNat (p + count) := by rw [← old_toNat, UInt64.ofNat_toNat]
    have := old.toNat_lt
    by_cases stays : p + count < size
    · simp only [old_eq, stays, if_true]
    · have untouched : log.statusAt (.ofNat (p + count)) = .untouched := by
        by_contra modified
        exact stays (within _ (by omega) modified)
      simp only [old_eq, stays, untouched, if_false]

theorem insert_tracked {initial : List UInt8} {origin : Nat → Nat}
    (tracked : Tracked initial origin s) (offset : Word) (data : List UInt8)
    (small : (s.insert offset data).1.size < 0x8000000000000000) :
    ∃ origin, Tracked initial origin (s.insert offset data).1 := by
  by_cases accepted : offset.toNat ≤ s.size
  · have inserted := insert_memory tracked.memory accepted data
    have place : offset.toNat ≤ s.contents.length := accepted
    have new_size : (s.insert offset data).1.size = s.size + data.length := by
      simp [inserted, size]
      omega
    have bytes (p : Nat) : (s.insert offset data).1.contents[p]? =
        if p < offset.toNat then s.contents[p]?
        else if p < offset.toNat + data.length then data[p - offset.toNat]?
        else s.contents[p - data.length]? := by
      rw [inserted]
      exact getElem?_inserted s.contents data place p
    have room : s.size + data.length < 0x8000000000000000 := new_size ▸ small
    have shifted := insert_statusOf tracked.canonical room accepted tracked.within
    have status : ∀ p < 0x10000000000000000, (s.insert offset data).1.statusOf p =
        if p < offset.toNat then s.statusOf p
        else if p < offset.toNat + data.length then .inserted
        else s.statusOf (p - data.length) := by
      rw [inserted]
      exact shifted.2
    have canonical : (s.insert offset data).1.log.Canonical := by
      rw [inserted]
      exact shifted.1
    have memory : (s.insert offset data).1.medium = .memory := by
      rw [inserted]
      exact tracked.memory
    generalize (s.insert offset data).1 = s' at *
    -- What is not new was `data.length` places lower, or where it is if it is in front.
    have within := tracked.within
    exact ⟨_, tracked.moved memory small canonical (by grind)
      (fun p => if p < offset.toNat then p else p - data.length) (by grind) (by grind) (by grind)⟩
  · have refused : (s.insert offset data).1 = s := by
      simp [insert, tracked.memory, accepted]
    exact ⟨origin, by rwa [refused]⟩

theorem remove_tracked {initial : List UInt8} {origin : Nat → Nat}
    (tracked : Tracked initial origin s) (offset length : Word) :
    ∃ origin, Tracked initial origin (s.remove offset length).1 := by
  by_cases accepted : offset.toNat < s.size
  · generalize count_eq : min length.toNat (s.size - offset.toNat) = count
    have removed := remove_memory tracked.memory accepted length count_eq
    have inside : offset.toNat + count ≤ s.size := by omega
    have place : offset.toNat + count ≤ s.contents.length := inside
    have new_size : (s.remove offset length).1.size = s.size - count := by
      simp [removed, size]
      omega
    have bytes (p : Nat) : (s.remove offset length).1.contents[p]? =
        if p < offset.toNat then s.contents[p]? else s.contents[p + count]? := by
      rw [removed]
      exact getElem?_removed s.contents place p
    have shifted := remove_statusOf tracked.canonical tracked.small inside tracked.within
    have status : ∀ p < 0x10000000000000000, (s.remove offset length).1.statusOf p =
        if p < offset.toNat then s.statusOf p
        else if p + count < s.size then s.statusOf (p + count) else .untouched := by
      rw [removed]
      exact shifted.2
    have canonical : (s.remove offset length).1.log.Canonical := by
      rw [removed]
      exact shifted.1
    have memory : (s.remove offset length).1.medium = .memory := by
      rw [removed]
      exact tracked.memory
    generalize (s.remove offset length).1 = s' at *
    -- What is left was `count` places higher, or where it is if it is in front.
    have within := tracked.within
    have small := tracked.small
    exact ⟨_, tracked.moved memory (by omega) canonical (by grind)
      (fun p => if p < offset.toNat then p else p + count) (by grind) (by grind) (by grind)⟩
  · have refused : (s.remove offset length).1 = s := by
      simp [remove, tracked.memory, accepted]
    exact ⟨origin, by rwa [refused]⟩

theorem reached_tracked {initial : List UInt8} (reached : Reached initial s) :
    ∃ origin, Tracked initial origin s := by
  induction reached with
  | start small => exact ⟨id, tracked_inMemory small⟩
  | edit _ edit small ih =>
    obtain ⟨origin, tracked⟩ := ih
    cases edit with
    | write offset data => exact ⟨_, write_tracked tracked offset data⟩
    | insert offset data => exact insert_tracked tracked offset data small
    | remove offset length => exact remove_tracked tracked offset length

/-- In every state that memory can be edited into, no run reaches past the last byte, and the bytes
that are not inserted ones come from first places in the same order. An untouched byte is still the
one that was there. -/
theorem untouched_bytes_original {initial : List UInt8} (reached : Reached initial s) :
    (∀ run ∈ s.log.runs, run.stop.toNat ≤ s.size) ∧
      ∃ origin : Nat → Nat,
        (∀ p < s.size, s.log.statusAt (.ofNat p) ≠ .inserted → origin p < initial.length) ∧
        (∀ p q, p < q → q < s.size → s.log.statusAt (.ofNat p) ≠ .inserted →
          s.log.statusAt (.ofNat q) ≠ .inserted → origin p < origin q) ∧
        ∀ p < s.size, s.log.statusAt (.ofNat p) = .untouched →
          s.contents[p]? = initial[origin p]? := by
  obtain ⟨origin, tracked⟩ := reached_tracked reached
  exact ⟨runs_end tracked.canonical tracked.within, origin, tracked.inside, tracked.increasing,
    tracked.kept⟩

def shiftedMemory : Storage :=
  [.write 1 [2, 7], .insert 2 [9, 9], .remove 0 1].foldl StorageEdit.apply (inMemory [1, 2, 3, 4])

theorem shifted_bytes_original :
    Reached [1, 2, 3, 4] shiftedMemory ∧
      shiftedMemory.contents = [2, 9, 9, 7, 4] ∧
      ∃ origin : Nat → Nat, origin 0 < origin 3 ∧ origin 3 < origin 4 ∧
        some 4 = [(1 : UInt8), 2, 3, 4][origin 4]? := by
  have reached : Reached [1, 2, 3, 4] shiftedMemory :=
    .edit (.edit (.edit (.start (by decide)) (.write 1 [2, 7]) (by decide +kernel))
      (.insert 2 [9, 9]) (by decide +kernel)) (.remove 0 1) (by decide +kernel)
  obtain ⟨-, origin, -, increasing, kept⟩ := untouched_bytes_original reached
  refine ⟨reached, by decide +kernel, origin, ?_, ?_, ?_⟩
  · exact increasing 0 3 (by decide) (by decide +kernel) (by decide +kernel) (by decide +kernel)
  · exact increasing 3 4 (by decide) (by decide +kernel) (by decide +kernel) (by decide +kernel)
  · exact kept 4 (by decide +kernel) (by decide +kernel)

end Storage

end BinaryAtlas
