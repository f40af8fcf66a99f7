import BinaryAtlas.Proofs.PatchLog.Cutting

/-!
Joining at the seams of a range. Where runs that touch and agree only do so within the range, what
is left is canonical and covers the same bytes.
-/

set_option autoImplicit false

namespace BinaryAtlas

namespace PatchLog

/-- What holds between two steps of joining. `starts` are those still to come; a run that touches
and agrees with the one before it has yet to be reached. -/
structure Joining (original : RunSet) (starts : List Word) (state : PatchLog × Option Word) :
    Prop where
  separated : state.1.runSet.Separated
  covers : ∀ offset status,
    state.1.runSet.Covers offset status ↔ original.Covers offset status
  ascending : starts.Pairwise (· < ·)
  held : ∀ start ∈ starts, ∃ stop status, state.1.runSet start stop status
  previous_held : ∀ previous, state.2 = some previous →
    (∃ stop status, state.1.runSet previous stop status) ∧ ∀ start ∈ starts, previous < start
  pending : ∀ {start seam stop status}, state.1.runSet start seam status →
    state.1.runSet seam stop status → seam ∈ starts ∧ (start ∈ starts ∨ state.2 = some start)

theorem joined_runSet (log : PatchLog) (previous start stop : Word) (status : ByteStatus) :
    ((⟨log.table.erase start⟩ : PatchLog).put previous stop status).runSet =
      log.runSet.joined previous start stop status := by
  funext s e st
  apply propext
  rw [put_runSet]
  simp only [runSet, Table.get?_erase, RunSet.joined]
  grind

theorem joining_first {original : RunSet} {start : Word} {rest : List Word} {log : PatchLog}
    (joining : Joining original (start :: rest) (log, none)) :
    Joining original rest (log, some start) := by
  obtain ⟨separated, covers, ascending, held, -, pending⟩ := joining
  obtain ⟨above, ascending⟩ := List.pairwise_cons.1 ascending
  refine ⟨separated, covers, ascending, fun s member => held s (by simp [member]), ?_, ?_⟩
  · rintro previous ⟨⟩
    exact ⟨held start (by simp), above⟩
  · intro s seam e st earlier later
    have ordered := separated.nonempty earlier
    have := pending earlier later
    simp only [List.mem_cons] at this
    grind

theorem joining_apart {original : RunSet} {previous seam start : Word} {kept : ByteStatus}
    {rest : List Word} {log : PatchLog}
    (joining : Joining original (start :: rest) (log, some previous))
    (first : log.runSet previous seam kept)
    (differ : ¬ ∃ stop, seam = start ∧ log.runSet start stop kept) :
    Joining original rest (log, some start) := by
  obtain ⟨separated, covers, ascending, held, previous_held, pending⟩ := joining
  obtain ⟨above, ascending⟩ := List.pairwise_cons.1 ascending
  have before := (previous_held previous rfl).2 start (by simp)
  obtain ⟨stop, status, second⟩ := held start (by simp)
  have within := separated.apart first second before
  refine ⟨separated, covers, ascending, fun s member => held s (by simp [member]), ?_, ?_⟩
  · rintro _ ⟨⟩
    exact ⟨⟨stop, status, second⟩, above⟩
  · intro s border e st earlier later
    have ordered := separated.nonempty earlier
    have touches (same : s = previous) : seam = border ∧ kept = st :=
      separated.single first (same ▸ earlier)
    have := pending earlier later
    simp only [List.mem_cons, Option.some.injEq] at this
    -- Only the run before `start` could touch it, and that one does not agree.
    have past : border ≠ start := by
      rintro rfl
      have same : s = previous := by grind
      exact differ ⟨e, (touches same).1, (touches same).2 ▸ later⟩
    grind

theorem joining_touch {original : RunSet} {previous start stop : Word} {status : ByteStatus}
    {rest : List Word} {log : PatchLog}
    (joining : Joining original (start :: rest) (log, some previous))
    (first : log.runSet previous start status) (second : log.runSet start stop status) :
    Joining original rest
      ((⟨log.table.erase start⟩ : PatchLog).put previous stop status, some previous) := by
  obtain ⟨separated, covers, ascending, held, previous_held, pending⟩ := joining
  obtain ⟨above, ascending⟩ := List.pairwise_cons.1 ascending
  have before := (previous_held previous rfl).2
  have behind := separated.nonempty second
  have runs := joined_runSet log previous start stop status
  constructor
  · rw [runs]
    exact separated.joined first second
  · intro offset query
    rw [runs, RunSet.covers_joined separated first second, covers]
  · exact ascending
  · intro s member
    obtain ⟨e, st, present⟩ := held s (by simp [member])
    have := above s member
    have := before s (by simp [member])
    refine ⟨e, st, ?_⟩
    simp only [runs, RunSet.joined]
    grind
  · rintro _ ⟨⟩
    refine ⟨⟨stop, status, ?_⟩, fun s member => before s (by simp [member])⟩
    simp [runs, RunSet.joined]
  · intro s seam e st earlier later
    rw [runs] at earlier later
    -- Joining makes no seam: one at the end of the joined run was one of its second part.
    obtain ⟨past, origin, ⟨e', old, old'⟩, same⟩ :=
      RunSet.seam_of_joined separated first second earlier later
    obtain ⟨reached, came⟩ := pending old old'
    simp only [List.mem_cons, Option.some.injEq] at reached came before ⊢
    grind

theorem joining_step {original : RunSet} {start : Word} {rest : List Word}
    {state : PatchLog × Option Word} (joining : Joining original (start :: rest) state) :
    Joining original rest (joinStep state start) := by
  obtain ⟨log, previous?⟩ := state
  cases previous? with
  | none => exact joining_first joining
  | some previous =>
    obtain ⟨⟨seam, kept, first⟩, -⟩ := joining.previous_held previous rfl
    obtain ⟨stop, status, second⟩ := joining.held start (by simp)
    have found : log.table.get? previous = some ⟨seam, kept⟩ := first
    have found' : log.table.get? start = some ⟨stop, status⟩ := second
    simp only [joinStep, found, found']
    by_cases touch : seam = start ∧ kept = status
    · obtain ⟨rfl, rfl⟩ := touch
      simp only [and_self, if_true]
      exact joining_touch joining first second
    · simp only [touch, if_false]
      apply joining_apart joining first
      rintro ⟨e, rfl, agrees⟩
      exact touch ⟨rfl, (joining.separated.single second agrees).2.symm⟩

theorem joining_foldl {original : RunSet} {starts : List Word} {state : PatchLog × Option Word}
    (joining : Joining original starts state) :
    Joining original [] (starts.foldl joinStep state) := by
  induction starts generalizing state with
  | nil => exact joining
  | cons start rest ih => exact ih (joining_step joining)

theorem first_of_coalesce {log : PatchLog} (separated : log.runSet.Separated) (lo : Word) :
    ((log.table.below? lo).map (·.1)).getD lo ≤ lo ∧ ∀ start stop status,
      log.runSet start stop status → lo ≤ stop →
        ((log.table.below? lo).map (·.1)).getD lo ≤ start := by
  cases found : log.table.below? lo with
  | none =>
    have missing := le_of_below?_eq_none found
    exact ⟨Std.le_refl _, fun start stop status held _ => missing start stop status held⟩
  | some entry =>
    obtain ⟨before, last, kept⟩ := entry
    obtain ⟨held, before_lt, greatest⟩ := runSet_of_below? found
    simp only [Option.map_some, Option.getD_some]
    refine ⟨by grind, fun start stop status other reaches => ?_⟩
    have := @separated.apart start stop status before last kept other held
    have := greatest start stop status other
    grind

theorem coalesce_runSet {log : PatchLog} (separated : log.runSet.Separated) {lo hi : Word}
    (seams : log.runSet.SeamsWithin lo hi) :
    (log.coalesce lo hi).runSet.Canonical ∧ ∀ offset status,
      (log.coalesce lo hi).runSet.Covers offset status ↔ log.runSet.Covers offset status := by
  obtain ⟨first_le, reached⟩ := first_of_coalesce separated lo
  unfold coalesce
  generalize ((log.table.below? lo).map (·.1)).getD lo = first at first_le reached
  have listed (start : Word) :
      (start ∈ log.table.keys.filter fun s => decide (first ≤ s) && decide (s ≤ hi)) ↔
        (∃ stop status, log.runSet start stop status) ∧ first ≤ start ∧ start ≤ hi := by
    simp only [List.mem_filter, Table.mem_keys_iff, Bool.and_eq_true, decide_eq_true_eq, runSet]
    constructor
    · rintro ⟨⟨⟨stop, status⟩, held⟩, within⟩
      exact ⟨⟨stop, status, held⟩, within⟩
    · rintro ⟨⟨stop, status, held⟩, within⟩
      exact ⟨⟨⟨stop, status⟩, held⟩, within⟩
  have initial : Joining log.runSet
      (log.table.keys.filter fun s => decide (first ≤ s) && decide (s ≤ hi)) (log, none) := by
    constructor
    · exact separated
    · exact fun offset status => Iff.rfl
    · exact log.table.keys_ascending.filter _
    · exact fun start member => ((listed start).1 member).1
    · rintro previous ⟨⟩
    · intro start seam stop status earlier later
      -- The run that ends at the seam reaches the range, so it is not before the first start.
      have within := seams earlier later
      have ordered := separated.nonempty earlier
      have := reached start seam status earlier within.1
      simp only [listed]
      exact ⟨⟨⟨stop, status, later⟩, by grind⟩, .inl ⟨⟨seam, status, earlier⟩, by grind⟩⟩
  -- With no starts left to come no seam can be pending.
  have final := joining_foldl initial
  refine ⟨⟨final.separated, fun earlier later => ?_⟩, final.covers⟩
  simpa using (final.pending earlier later).1

end PatchLog

end BinaryAtlas
