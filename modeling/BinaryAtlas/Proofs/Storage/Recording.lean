import BinaryAtlas.Backend
import BinaryAtlas.Proofs.PatchLog.Refinement
import BinaryAtlas.Proofs.Storage.Tracking

/-!
Whatever is done to a storage of any medium, its log stays canonical, as long as memory does not
grow beyond what a machine can hold.
-/

set_option autoImplicit false

namespace BinaryAtlas

namespace PatchLog

theorem markDifferences_canonical {log : PatchLog} (canonical : log.Canonical) (offset : Word)
    (since? : Option Word) (before data : List UInt8) :
    (log.markDifferences offset since? before data).Canonical := by
  induction data generalizing log offset since? before with
  | nil =>
    cases since? with
    | none => exact canonical
    | some since => exact (markChanged_refines canonical since offset).1
  | cons d data ih =>
    unfold markDifferences
    cases before.head? != some d <;> rcases since? with - | since
    · exact ih canonical _ _ _
    · exact ih (markChanged_refines canonical since offset).1 _ _ _
    · exact ih canonical _ _ _
    · exact ih canonical _ _ _

theorem removeShift_canonical {log : PatchLog} (canonical : log.Canonical) (offset length : Word) :
    (log.removeShift offset length).Canonical :=
  (PatchEdit.apply_refines canonical (.removeShift offset length) trivial).1

theorem ofRuns_canonical (runs : List PatchRun) : (ofRuns runs).Canonical := by
  have each (log : PatchLog) (canonical : log.Canonical) :
      (runs.foldl (fun log r => log.set r.start r.stop r.status) log).Canonical := by
    induction runs generalizing log with
    | nil => exact canonical
    | cons r rest ih => exact ih _ (set_refines canonical r.start r.stop r.status).1
  exact each empty canonical_empty

end PatchLog

namespace Storage

/-- Memory holds fewer than `2 ^ 63` bytes, and its log speaks of none further up. -/
def Fits (s : Storage) : Prop :=
  s.medium = .memory → s.size < 0x8000000000000000 ∧
    ∀ run ∈ s.log.runs, run.stop.toNat ≤ 0x8000000000000000

def fits (s : Storage) : Bool :=
  match s.medium with
  | .memory => decide (s.size < 0x8000000000000000) &&
      s.log.runs.all fun run => run.stop.toNat ≤ 0x8000000000000000
  | _ => true

variable {s : Storage}

theorem fits_iff : s.fits = true ↔ s.Fits := by
  unfold fits Fits
  cases s.medium <;> simp

theorem write_canonical (canonical : s.log.Canonical) (offset : Word) (data : List UInt8) :
    (s.write offset data).1.log.Canonical :=
  PatchLog.markDifferences_canonical canonical offset none _ _

theorem write_none_fits (fits : s.Fits) {offset : Word} {data : List UInt8}
    (none : (s.write offset data).2 = 0) : (s.write offset data).1.Fits := by
  intro memory
  have was_memory : s.medium = .memory := memory
  have same_log : (s.write offset data).1.log = s.log := by
    have count : (s.written offset data).2 = 0 := none
    show s.log.markDifferences offset .none _ (data.take (s.written offset data).2) = s.log
    rw [count]
    rfl
  have same_size : (s.write offset data).1.size = s.size := by
    rw [size, (write_memory was_memory offset data).2.1, length_overwrite, size]
  rw [same_log, same_size]
  exact fits was_memory

theorem insert_canonical (canonical : s.log.Canonical) (fits : s.Fits) (offset : Word)
    (data : List UInt8) (after : (s.insert offset data).1.Fits) :
    (s.insert offset data).1.log.Canonical := by
  by_cases growing : s.medium = .memory ∧ offset.toNat ≤ s.size
  · obtain ⟨memory, inside⟩ := growing
    rw [insert_memory memory inside data] at after ⊢
    have small := (after memory).1
    have grown : s.size + data.length < 0x8000000000000000 := by
      simp only [size, List.length_append, List.length_take, List.length_drop] at small inside ⊢
      omega
    have length : (Word.ofNatCapped data.length).toNat = data.length := by
      rw [Word.toNat_ofNatCapped]
      omega
    refine (PatchEdit.apply_refines canonical (.insertShift offset _) (.inr ⟨?_, ?_⟩)).1
    · rw [length]
      omega
    · intro run member _
      have := (fits memory).2 run member
      rw [length]
      omega
  · have same : (s.insert offset data).1 = s := by
      unfold insert
      split
      · rename_i memory
        rw [if_neg fun inside => growing ⟨memory, inside⟩]
      · rfl
    rw [same]
    exact canonical

theorem insert_none_fits (fits : s.Fits) {offset : Word} {data : List UInt8}
    (none : (s.insert offset data).2 = 0) : (s.insert offset data).1.Fits := by
  unfold insert at none ⊢
  split
  · rename_i memory
    simp only [memory] at none
    split at none
    · rename_i inside
      have empty : data = [] := List.eq_nil_of_length_eq_zero none
      subst empty
      rw [if_pos inside]
      intro _
      have same : s.contents.take offset.toNat ++ [] ++ s.contents.drop offset.toNat =
          s.contents := by
        simp
      simp only [size, same]
      exact fits memory
    · rename_i outside
      rw [if_neg outside]
      exact fits
  · exact fits

theorem remove_canonical (canonical : s.log.Canonical) (offset length : Word) :
    (s.remove offset length).1.log.Canonical := by
  unfold remove
  split
  · split
    · exact PatchLog.removeShift_canonical canonical offset _
    · exact canonical
  · exact canonical

theorem remove_none_fits (fits : s.Fits) {offset length : Word}
    (none : (s.remove offset length).2 = 0) : (s.remove offset length).1.Fits := by
  by_cases shrinking : s.medium = .memory ∧ offset.toNat < s.size
  · obtain ⟨memory, inside⟩ := shrinking
    have small := (fits memory).1
    have counted : (s.remove offset length).2 =
        Word.ofNatCapped (min length.toNat (s.size - offset.toNat)) := by
      simp only [remove, memory, inside, if_true]
    have nothing : min length.toNat (s.size - offset.toNat) = 0 := by
      have zero := congrArg UInt64.toNat (counted.symm.trans none)
      rw [Word.toNat_ofNatCapped, UInt64.toNat_zero] at zero
      omega
    rw [remove_memory memory inside length nothing]
    intro _
    simp only [size, Nat.add_zero, List.take_append_drop]
    exact fits memory
  · have same : (s.remove offset length).1 = s := by
      unfold remove
      split
      · rename_i memory
        rw [if_neg fun inside => shrinking ⟨memory, inside⟩]
      · rfl
    rw [same]
    exact fits

theorem apply_canonical (canonical : s.log.Canonical) (fits : s.Fits) (edit : StorageEdit)
    (after : (edit.apply s).Fits) : (edit.apply s).log.Canonical := by
  cases edit with
  | write offset data => exact write_canonical canonical offset data
  | insert offset data => exact insert_canonical canonical fits offset data after
  | remove offset length => exact remove_canonical canonical offset length

end Storage

namespace SegmentMap

/-- A write takes nothing, or one piece that is not taken whole, or a piece and then the rest. -/
theorem write_step (m : SegmentMap) (storage : Storage) (a : Word) (data : List UInt8) :
    m.write storage a data = (storage, 0) ∨
      ∃ offset piece, m.write storage a data = storage.write offset piece ∨
        ∃ next rest, 0 < piece.length ∧ rest.length < data.length ∧ m.write storage a data =
          ((m.write (storage.write offset piece).1 next rest).1,
            piece.length + (m.write (storage.write offset piece).1 next rest).2) := by
  rw [write]
  cases m.span? a with
  | none => exact .inl rfl
  | some span =>
    obtain ⟨s, stop⟩ := span
    simp only
    split
    · generalize want_eq : min data.length (min (s.start + s.dataLength) stop - a).toNat = want
      have within : want ≤ data.length := want_eq ▸ Nat.min_le_left _ _
      have length : (data.take want).length = want := by
        rw [List.length_take]
        omega
      split
      · exact .inl rfl
      · refine .inr ⟨s.dataOffset + (a - s.start), data.take want, ?_⟩
        split
        · exact .inl rfl
        · refine .inr ⟨a + .ofNat want, data.drop want, by omega, ?_, by rw [length]⟩
          rw [List.length_drop]
          omega
    · exact .inl rfl

theorem write_canonical (m : SegmentMap) {storage : Storage} (canonical : storage.log.Canonical)
    (a : Word) (data : List UInt8) : (m.write storage a data).1.log.Canonical := by
  induction length_eq : data.length using Nat.strongRecOn generalizing storage a data with
  | ind length ih =>
    subst length_eq
    rcases m.write_step storage a data with
      nothing | ⟨offset, piece, one | ⟨next, rest, -, fewer, more⟩⟩
    · rw [nothing]
      exact canonical
    · rw [one]
      exact Storage.write_canonical canonical offset piece
    · rw [more]
      exact ih _ fewer (Storage.write_canonical canonical offset piece) next rest rfl

theorem write_none_fits (m : SegmentMap) {storage : Storage} (fits : storage.Fits) {a : Word}
    {data : List UInt8} (none : (m.write storage a data).2 = 0) :
    (m.write storage a data).1.Fits := by
  rcases m.write_step storage a data with
    nothing | ⟨offset, piece, one | ⟨next, rest, some, -, more⟩⟩
  · rw [nothing]
    exact fits
  · rw [one] at none ⊢
    exact Storage.write_none_fits fits none
  · rw [more] at none
    have taken : piece.length + _ = 0 := none
    omega

end SegmentMap

namespace Backend

variable {b : Backend} {m : SegmentMap} {storage : Storage}

theorem write_canonical (canonical : storage.log.Canonical) (a : Word) (data : List UInt8) :
    (b.write m storage a data).1.log.Canonical := by
  cases b with
  | raw => exact Storage.write_canonical canonical a data
  | mapped label => exact m.write_canonical canonical a data

theorem write_none_fits (fits : storage.Fits) {a : Word} {data : List UInt8}
    (none : (b.write m storage a data).2 = 0) : (b.write m storage a data).1.Fits := by
  cases b with
  | raw => exact Storage.write_none_fits fits none
  | mapped label => exact m.write_none_fits fits none

theorem insert_canonical (canonical : storage.log.Canonical) (fits : storage.Fits) (a : Word)
    (data : List UInt8) (after : (b.insert storage a data).1.Fits) :
    (b.insert storage a data).1.log.Canonical := by
  cases b with
  | raw => exact Storage.insert_canonical canonical fits a data after
  | mapped label => exact canonical

theorem insert_none_fits (fits : storage.Fits) {a : Word} {data : List UInt8}
    (none : (b.insert storage a data).2 = 0) : (b.insert storage a data).1.Fits := by
  cases b with
  | raw => exact Storage.insert_none_fits fits none
  | mapped label => exact fits

theorem remove_canonical (canonical : storage.log.Canonical) (a length : Word) :
    (b.remove storage a length).1.log.Canonical := by
  cases b with
  | raw => exact Storage.remove_canonical canonical a length
  | mapped label => exact canonical

theorem remove_none_fits (fits : storage.Fits) {a length : Word}
    (none : (b.remove storage a length).2 = 0) : (b.remove storage a length).1.Fits := by
  cases b with
  | raw => exact Storage.remove_none_fits fits none
  | mapped label => exact fits

end Backend

end BinaryAtlas
