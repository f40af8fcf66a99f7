import BinaryAtlas.Proofs.PatchLog.Readout

/-!
Runs of edits on a patch log. However the edits fall on the runs that are there, the log stays
canonical, and what it says about each byte is what the edits say about single bytes.
-/

set_option autoImplicit false

namespace BinaryAtlas

inductive PatchEdit where
  | set (start stop : Word) (status : ByteStatus)
  | markChanged (start stop : Word)
  | insertShift (offset length : Word)
  | removeShift (offset length : Word)

namespace PatchEdit

def apply (log : PatchLog) : PatchEdit → PatchLog
  | set start stop status => log.set start stop status
  | markChanged start stop => log.markChanged start stop
  | insertShift offset length => log.insertShift offset length
  | removeShift offset length => log.removeShift offset length

/-- What an edit makes of the statuses of all bytes, without any runs. -/
def applyAt (statuses : Word → ByteStatus) : PatchEdit → Word → ByteStatus
  | set start stop status => fun x => if start ≤ x ∧ x < stop then status else statuses x
  | markChanged start stop => fun x =>
    if start ≤ x ∧ x < stop ∧ statuses x = .untouched then .changed else statuses x
  | insertShift offset length => fun x =>
    if x < offset then statuses x
    else if x.toNat < offset.toNat + length.toNat then .inserted
    else statuses (x - length)
  | removeShift offset length => fun x =>
    if x < offset then statuses x
    else
      match Word.add? x length with
      | some y => statuses y
      | none => .untouched

/-- No run is pushed past the largest offset. -/
def Fits (log : PatchLog) : PatchEdit → Prop
  | insertShift offset length =>
    length = 0 ∨ offset.toNat + length.toNat < 0x10000000000000000 ∧
      ∀ run ∈ log.runs, offset < run.stop → run.stop.toNat + length.toNat < 0x10000000000000000
  | _ => True

instance decidableFits (log : PatchLog) : (edit : PatchEdit) → Decidable (edit.Fits log)
  | insertShift _ _ => inferInstanceAs (Decidable (_ ∨ _ ∧ ∀ _ ∈ _, _ → _))
  | set _ _ _ | markChanged _ _ | removeShift _ _ => .isTrue trivial

def AllFit : PatchLog → List PatchEdit → Prop
  | _, [] => True
  | log, edit :: rest => edit.Fits log ∧ AllFit (edit.apply log) rest

instance decidableAllFit :
    (log : PatchLog) → (edits : List PatchEdit) → Decidable (AllFit log edits)
  | _, [] => .isTrue trivial
  | log, edit :: rest =>
    have := decidableAllFit (edit.apply log) rest
    inferInstanceAs (Decidable (edit.Fits log ∧ AllFit (edit.apply log) rest))

theorem movesWithin_of_fits {log : PatchLog} {offset length : Word} (some : length ≠ 0)
    (fits : (insertShift offset length).Fits log) : log.MovesWithin offset length := by
  obtain ⟨room, fits⟩ := fits.resolve_left some
  refine ⟨Word.le_top_sub_iff.2 room, fun {start stop status} held past => ?_⟩
  exact Word.le_top_sub_iff.2 (fits ⟨start, stop, status⟩ ((log.mem_runs_iff _).2 held) past)

theorem insertShift_applyAt {log : PatchLog} (canonical : log.Canonical) {offset length : Word}
    (fits : (insertShift offset length).Fits log) :
    (log.insertShift offset length).Canonical ∧ ∀ x,
      (log.insertShift offset length).statusAt x =
        (insertShift offset length).applyAt log.statusAt x := by
  by_cases none : length = 0
  · subst none
    refine ⟨by simpa [PatchLog.insertShift] using canonical, fun x => ?_⟩
    simp only [PatchLog.insertShift, applyAt, if_true]
    by_cases before : x < offset
    · simp [before]
    · have := UInt64.le_iff_toNat_le.1 (UInt64.not_lt.1 before)
      simp [before, Nat.not_lt.2 this]
  · have moves := movesWithin_of_fits none fits
    obtain ⟨result, statuses⟩ := PatchLog.insertShift_refines canonical none moves
    refine ⟨result, fun x => ?_⟩
    have end_eq : (offset + length).toNat = offset.toNat + length.toNat := by
      rw [UInt64.toNat_add, Nat.mod_eq_of_lt (Word.le_top_sub_iff.1 moves.1)]
    rw [statuses]
    simp only [applyAt, UInt64.lt_iff_toNat_lt, end_eq]

theorem removeShift_applyAt {log : PatchLog} (canonical : log.Canonical) (offset length : Word) :
    (log.removeShift offset length).Canonical ∧ ∀ x,
      (log.removeShift offset length).statusAt x =
        (removeShift offset length).applyAt log.statusAt x := by
  by_cases none : length = 0
  · subst none
    refine ⟨by simpa [PatchLog.removeShift] using canonical, fun x => ?_⟩
    have := x.toNat_lt
    simp [PatchLog.removeShift, applyAt, Word.add?, this]
  · obtain ⟨result, statuses⟩ := PatchLog.removeShift_refines canonical offset none
    refine ⟨result, fun x => ?_⟩
    rw [statuses]
    simp only [applyAt, Word.add?, Word.le_top_sub_iff]
    grind

theorem apply_refines {log : PatchLog} (canonical : log.Canonical) (edit : PatchEdit)
    (fits : edit.Fits log) :
    (edit.apply log).Canonical ∧
      ∀ offset, (edit.apply log).statusAt offset = edit.applyAt log.statusAt offset := by
  cases edit with
  | set start stop status => exact PatchLog.set_refines canonical start stop status
  | markChanged start stop => exact PatchLog.markChanged_refines canonical start stop
  | insertShift offset length => exact insertShift_applyAt canonical fits
  | removeShift offset length => exact removeShift_applyAt canonical offset length

theorem foldl_apply_refines {log : PatchLog} (canonical : log.Canonical) (edits : List PatchEdit)
    (fits : AllFit log edits) :
    (edits.foldl apply log).Canonical ∧
      (edits.foldl apply log).statusAt = edits.foldl applyAt log.statusAt := by
  induction edits generalizing log with
  | nil => exact ⟨canonical, rfl⟩
  | cons edit rest ih =>
    obtain ⟨kept, statuses⟩ := apply_refines canonical edit fits.1
    obtain ⟨result, final⟩ := ih kept fits.2
    rw [funext statuses] at final
    exact ⟨result, final⟩

theorem removeShift_insertShift {log : PatchLog} (canonical : log.Canonical)
    {offset length : Word} (fits : (insertShift offset length).Fits log) :
    (log.insertShift offset length).removeShift offset length = log := by
  obtain ⟨inserted, opened⟩ := insertShift_applyAt canonical fits
  obtain ⟨removed, closed⟩ := removeShift_applyAt inserted offset length
  apply PatchLog.canonical_unique removed canonical
  intro x
  rw [closed]
  by_cases before : x < offset
  · simp [applyAt, opened, before]
  · have past := UInt64.le_iff_toNat_le.1 (UInt64.not_lt.1 before)
    cases sum : Word.add? x length with
    | some y =>
      have sum_toNat := Word.add?_eq_some_iff.1 sum
      have back : y - length = x := by
        rw [← UInt64.toNat_inj, UInt64.toNat_sub_of_le _ _ (UInt64.le_iff_toNat_le.2 (by omega))]
        omega
      have after : ¬ y < offset := by
        rw [UInt64.lt_iff_toNat_lt]
        omega
      have behind : ¬ y.toNat < offset.toNat + length.toNat := by omega
      simp only [applyAt, before, if_false, sum, opened, after, behind, back]
    | none =>
      -- A byte that would have been pushed out was not covered, as every run stays within.
      have beyond := Word.add?_eq_none_iff.1 sum
      simp only [applyAt, before, if_false, sum]
      symm
      apply PatchLog.statusAt_of_no_run canonical
      rintro run member ⟨-, inside⟩
      have in_range := UInt64.lt_iff_toNat_lt.1 inside
      have := x.toNat_lt
      rcases fits with rfl | ⟨-, low⟩
      · simp at beyond
        omega
      · have := low run member (UInt64.lt_iff_toNat_lt.2 (by omega))
        omega

/-- Edits of an empty log that push no run past the end leave it canonical and true to the statuses
of the single bytes, so that it can be told from its statuses and made again from its runs. -/
theorem edited_log_correct (edits : List PatchEdit) (fits : AllFit .empty edits) :
    let log := edits.foldl apply .empty
    CanonicalRuns log.runs ∧
      (∀ offset, log.statusAt offset = edits.foldl applyAt (fun _ => .untouched) offset) ∧
      (∀ offset length, (log.statuses offset length).length = length ∧
        ∀ i < length, offset.toNat + i < 0x10000000000000000 →
          (log.statuses offset length)[i]? = some (log.statusAt (offset + .ofNat i))) ∧
      (∀ others, AllFit .empty others →
        (∀ offset, log.statusAt offset = (others.foldl apply .empty).statusAt offset) →
          log.runs = (others.foldl apply .empty).runs) ∧
      PatchLog.ofRuns log.runs = log ∧
      ∀ offset length, (insertShift offset length).Fits log →
        (log.insertShift offset length).removeShift offset length = log := by
  intro log
  obtain ⟨canonical, statuses⟩ := foldl_apply_refines PatchLog.canonical_empty edits fits
  refine ⟨PatchLog.canonicalRuns canonical, fun offset => congrFun statuses offset, ?_, ?_, ?_, ?_⟩
  · exact fun offset length => ⟨PatchLog.length_statuses .., fun i place range =>
      PatchLog.getElem?_statuses canonical offset place range⟩
  · intro others others_fit same
    obtain ⟨other_canonical, _⟩ := foldl_apply_refines PatchLog.canonical_empty others others_fit
    exact congrArg PatchLog.runs (PatchLog.canonical_unique canonical other_canonical same)
  · exact PatchLog.ofRuns_runs canonical
  · exact fun offset length room => removeShift_insertShift canonical room

def crossingEdits : List PatchEdit :=
  [.set 2 8 .changed, .insertShift 4 6, .markChanged 0 3, .removeShift 8 4]

theorem crossing_edits_correct :
    AllFit .empty crossingEdits ∧
      AllFit .empty [.set 0 10 .changed, .set 4 8 .inserted] ∧
      (crossingEdits.foldl apply .empty).runs =
        [⟨0, 4, .changed⟩, ⟨4, 8, .inserted⟩, ⟨8, 10, .changed⟩] ∧
      CanonicalRuns (crossingEdits.foldl apply .empty).runs ∧
      (crossingEdits.foldl apply .empty).runs =
        ([.set 0 10 .changed, .set 4 8 .inserted].foldl apply .empty).runs ∧
      ((crossingEdits.foldl apply .empty).insertShift 6 9).removeShift 6 9 =
        crossingEdits.foldl apply .empty := by
  have fits : AllFit .empty crossingEdits := by decide +kernel
  have others : AllFit .empty [.set 0 10 .changed, .set 4 8 .inserted] := by decide +kernel
  have same : crossingEdits.foldl apply .empty =
      [.set 0 10 .changed, .set 4 8 .inserted].foldl apply .empty := by decide +kernel
  obtain ⟨canonical, -, -, told, -, undone⟩ := edited_log_correct crossingEdits fits
  refine ⟨fits, others, by decide +kernel, canonical, told _ others fun offset => by rw [same], ?_⟩
  exact undone 6 9 (by decide +kernel)

end PatchEdit

end BinaryAtlas
