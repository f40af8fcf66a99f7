import BinaryAtlas.Proofs.PatchLog.Editing

/-!
Marking bytes as changed fills the gaps between the runs of a range. The gaps are exactly the
untouched bytes of the range. A write marks the stretches of bytes it makes different.
-/

set_option autoImplicit false

namespace BinaryAtlas

namespace PatchLog

theorem firstTouching_spec {log : PatchLog} (separated : log.runSet.Separated) {offset : Word}
    {start stop : Word} {status : ByteStatus} (held : log.runSet start stop status) :
    log.firstTouching offset ≤ start ↔ offset < stop := by
  obtain ⟨nonempty, modified, single, apart⟩ := separated
  have := nonempty held
  unfold firstTouching
  cases found : log.table.below? offset with
  | none =>
    have := le_of_below?_eq_none found start stop status held
    grind
  | some entry =>
    obtain ⟨before, last, kept⟩ := entry
    obtain ⟨first, before_lt, greatest⟩ := runSet_of_below? found
    have := greatest start stop status held
    have := @apart start stop status before last kept held first
    have := @apart before last kept start stop status first held
    have := @single start stop status last kept held
    grind

theorem mem_touching_iff {log : PatchLog} (separated : log.runSet.Separated)
    (offset limit start stop : Word) (status : ByteStatus) :
    (start, RunEnd.mk stop status) ∈ log.table.between (log.firstTouching offset) limit ↔
      log.runSet start stop status ∧ offset < stop ∧ start < limit := by
  rw [Table.mem_between_iff]
  constructor
  · rintro ⟨held, reached, before⟩
    exact ⟨held, (firstTouching_spec separated held).1 reached, before⟩
  · rintro ⟨held, reached, before⟩
    exact ⟨held, (firstTouching_spec separated held).2 reached, before⟩

theorem touching_apart {log : PatchLog} (separated : log.runSet.Separated) (first limit : Word) :
    (log.table.between first limit).Pairwise fun a b => a.2.stop ≤ b.1 := by
  apply List.Pairwise.imp_of_mem ?_ (log.table.ascending.filter _)
  rintro ⟨s, e, st⟩ ⟨s', e', st'⟩ member member' before
  have held : log.runSet s e st := ((Table.mem_between_iff ..).1 member).1
  have held' : log.runSet s' e' st' := ((Table.mem_between_iff ..).1 member').1
  exact separated.apart held held' (Std.compare_eq_lt.1 before)

/-- Gaps lie between the runs, in order, and take up all that the runs leave free. -/
structure Free (stop cursor : Word) (runs : List (Word × RunEnd)) (free : List (Word × Word)) :
    Prop where
  ordered : free.Pairwise fun a b => a.2 ≤ b.1
  within : ∀ gap ∈ free, cursor ≤ gap.1 ∧ gap.1 < gap.2 ∧ gap.2 ≤ stop
  clear : ∀ gap ∈ free, ∀ run ∈ runs, run.2.stop ≤ gap.1 ∨ gap.2 ≤ run.1
  exhausted : ∀ offset, cursor ≤ offset → offset < stop →
    (∀ run ∈ runs, ¬ (run.1 ≤ offset ∧ offset < run.2.stop)) →
      ∃ gap ∈ free, gap.1 ≤ offset ∧ offset < gap.2

theorem free_nil {stop cursor : Word} {runs : List (Word × RunEnd)} (done : stop ≤ cursor) :
    Free stop cursor runs [] := by
  refine ⟨.nil, by simp, by simp, fun offset reached before => ?_⟩
  grind

theorem free_cons {stop cursor start last : Word} {status : ByteStatus}
    {rest : List (Word × RunEnd)} {free : List (Word × Word)} (nonempty : start < last)
    (inside : start < stop) (past : cursor < last) (behind : ∀ run ∈ rest, last ≤ run.1)
    (later : Free stop last rest free) :
    Free stop cursor ((start, ⟨last, status⟩) :: rest)
      ((if cursor < start then [(cursor, start)] else []) ++ free) := by
  obtain ⟨ordered, within, clear, exhausted⟩ := later
  have front (gap : Word × Word) :
      gap ∈ (if cursor < start then [(cursor, start)] else []) ↔
        cursor < start ∧ gap = (cursor, start) := by
    by_cases before : cursor < start <;> simp [before]
  constructor
  · rw [List.pairwise_append]
    refine ⟨by split <;> simp, ordered, fun gap first other second => ?_⟩
    obtain ⟨_, rfl⟩ := (front gap).1 first
    exact Std.le_trans (Std.le_of_lt nonempty) (within other second).1
  · intro gap member
    rcases List.mem_append.1 member with first | second
    · obtain ⟨before, rfl⟩ := (front gap).1 first
      exact ⟨Std.le_refl _, before, Std.le_of_lt inside⟩
    · have := within gap second
      grind
  · intro gap member run run_member
    rcases List.mem_append.1 member with first | second
    · obtain ⟨before, rfl⟩ := (front gap).1 first
      rcases List.mem_cons.1 run_member with rfl | other
      · exact .inr (Std.le_refl _)
      · exact .inr (Std.le_trans (Std.le_of_lt nonempty) (behind run other))
    · rcases List.mem_cons.1 run_member with rfl | other
      · exact .inl (within gap second).1
      · exact clear gap second run other
  · intro offset reached before uncovered
    by_cases ahead : offset < last
    · have := uncovered _ List.mem_cons_self
      have before_run : offset < start := by grind
      refine ⟨(cursor, start), List.mem_append_left _ ((front _).2 ⟨?_, rfl⟩), reached, before_run⟩
      exact Std.lt_of_le_of_lt reached before_run
    · obtain ⟨gap, member, covers⟩ := exhausted offset (by grind) before
        fun run member => uncovered run (List.mem_cons_of_mem _ member)
      exact ⟨gap, List.mem_append_right _ member, covers⟩

theorem gaps_free (stop cursor : Word) (runs : List (Word × RunEnd))
    (apart : runs.Pairwise fun a b => a.2.stop ≤ b.1)
    (shape : ∀ run ∈ runs, run.1 < run.2.stop ∧ run.1 < stop) :
    Free stop cursor runs (gaps stop cursor runs) := by
  induction runs generalizing cursor with
  | nil =>
    unfold gaps
    split
    · rename_i room
      refine ⟨by simp, by simp [room], by simp, fun offset reached before _ => ?_⟩
      exact ⟨(cursor, stop), by simp, reached, before⟩
    · rename_i done
      exact free_nil (by grind)
  | cons run rest ih =>
    obtain ⟨start, last, status⟩ := run
    obtain ⟨behind, apart⟩ := List.pairwise_cons.1 apart
    have later (next : Word) := ih next apart fun other member => shape other (by simp [member])
    obtain ⟨nonempty, inside⟩ := shape _ List.mem_cons_self
    simp only at nonempty inside behind
    unfold gaps
    by_cases passed : last ≤ cursor
    -- The run ends at the cursor or below it, so it bounds no gap.
    · obtain ⟨ordered, within, clear, exhausted⟩ := later cursor
      simp only [passed, if_true]
      refine ⟨ordered, within, ?_, ?_⟩
      · intro gap member run run_member
        rcases List.mem_cons.1 run_member with rfl | other
        · exact .inl (Std.le_trans passed (within gap member).1)
        · exact clear gap member run other
      · intro offset reached before uncovered
        exact exhausted offset reached before fun run member => uncovered run (by simp [member])
    · have past : cursor < last := by grind
      simp only [passed, if_false, Word.max_eq, Std.le_of_lt past, if_true]
      apply free_cons nonempty inside past behind
      split
      · rename_i done
        exact free_nil done
      · exact later last

def marks (free : List (Word × Word)) : RunSet :=
  fun start stop status => (start, stop) ∈ free ∧ status = .changed

theorem marks_separated {stop cursor : Word} {runs : List (Word × RunEnd)}
    {free : List (Word × Word)} (gaps : Free stop cursor runs free) : (marks free).Separated := by
  have disjoint : ∀ ⦃gap⦄, gap ∈ free → ∀ ⦃other⦄, other ∈ free →
      gap = other ∨ gap.2 ≤ other.1 ∨ other.2 ≤ gap.1 :=
    List.Pairwise.forall_of_forall_of_flip (fun _ _ => .inl rfl)
      (gaps.ordered.imp fun before => .inr (.inl before))
      (gaps.ordered.imp fun before => .inr (.inr before))
  have within := gaps.within
  constructor
  · grind [marks]
  · grind [marks]
  · rintro s e st e' st' ⟨first, rfl⟩ ⟨second, rfl⟩
    have := disjoint first second
    have := within _ first
    have := within _ second
    grind
  · rintro s e st s' e' st' ⟨first, rfl⟩ ⟨second, rfl⟩ before
    have := disjoint first second
    have := within _ first
    have := within _ second
    grind

theorem gaps_touching {log : PatchLog} (separated : log.runSet.Separated) {start stop : Word}
    {free : List (Word × Word)}
    (gaps : Free stop start (log.table.between (log.firstTouching start) stop) free) :
    (∀ {s e st s' e' st'}, marks free s e st → log.runSet s' e' st' → e ≤ s' ∨ e' ≤ s) ∧
      ∀ offset status, (marks free).Covers offset status ↔
        status = .changed ∧ start ≤ offset ∧ offset < stop ∧ log.statusAt offset = .untouched := by
  obtain ⟨-, within, clear, exhausted⟩ := gaps
  have touching := mem_touching_iff separated start stop
  have apart {s e s' e' : Word} {st' : ByteStatus} (gap : (s, e) ∈ free)
      (held : log.runSet s' e' st') : e ≤ s' ∨ e' ≤ s := by
    have := within _ gap
    by_cases touches : start < e' ∧ s' < stop
    · exact (clear _ gap (s', ⟨e', st'⟩) ((touching ..).2 ⟨held, touches⟩)).symm
    · grind
  refine ⟨fun gap held => apart gap.1 held, fun offset status => ?_⟩
  constructor
  · rintro ⟨s, e, ⟨gap, rfl⟩, from_start, to_stop⟩
    have := within _ gap
    refine ⟨rfl, by grind, by grind, ?_⟩
    by_contra modified
    obtain ⟨s', e', held, _, _⟩ := (covers_iff separated offset _).2 ⟨rfl, modified⟩
    have := apart gap held
    grind
  · rintro ⟨rfl, reached, before, original⟩
    obtain ⟨gap, member, covers⟩ := exhausted offset reached before (by
      rintro ⟨s, e, st⟩ member covers
      have held := ((touching s e st).1 member).1
      have := (covers_iff separated offset st).1 ⟨s, e, held, covers⟩
      exact this.2 (this.1.symm.trans original))
    exact ⟨gap.1, gap.2, ⟨member, rfl⟩, covers⟩

theorem markChanged_refines {log : PatchLog} (canonical : log.Canonical) (start stop : Word) :
    (log.markChanged start stop).Canonical ∧ ∀ offset,
      (log.markChanged start stop).statusAt offset =
        if start ≤ offset ∧ offset < stop ∧ log.statusAt offset = .untouched then .changed
        else log.statusAt offset := by
  unfold markChanged
  by_cases nonempty : start < stop
  · simp only [nonempty, if_true]
    have gaps := gaps_free stop start
      (log.table.between (log.firstTouching start) stop)
      (touching_apart canonical.toSeparated _ _) (by
        rintro ⟨s, e, st⟩ member
        obtain ⟨held, -, before⟩ :=
          (mem_touching_iff canonical.toSeparated start stop s e st).1 member
        exact ⟨canonical.nonempty held, before⟩)
    obtain ⟨clear, covers⟩ := gaps_touching canonical.toSeparated gaps
    have within := gaps.within
    have marked := marks_separated gaps
    generalize
      PatchLog.gaps stop start (log.table.between (log.firstTouching start) stop) = free at *
    have distinct : (free.map fun gap => gap.1).Nodup := by
      rw [List.Nodup, List.pairwise_map]
      apply List.Pairwise.imp_of_mem ?_ gaps.ordered
      intro gap other member _ before
      have := within gap member
      grind
    -- The gaps are clear of all runs, so filing them replaces none.
    have whole : (free.foldl (fun log gap => log.put gap.1 gap.2 .changed) log).runSet =
        (marks free).union log.runSet := by
      funext s e st
      apply propext
      rw [foldl_put_runSet (fun gap : Word × Word => gap.1) (fun gap => gap.2)
        (fun _ => .changed) _ distinct]
      simp only [RunSet.union, marks, Prod.exists]
      constructor
      · rintro (⟨_, _, member, rfl, rfl, rfl⟩ | ⟨held, -⟩)
        · exact .inl ⟨member, rfl⟩
        · exact .inr held
      · rintro (⟨member, rfl⟩ | held)
        · exact .inl ⟨s, e, member, rfl, rfl, rfl⟩
        · refine .inr ⟨held, ?_⟩
          rintro ⟨_, last⟩ member rfl
          have := clear ⟨member, rfl⟩ held
          have := canonical.nonempty held
          have := within _ member
          grind
    have separated := marked.union canonical.toSeparated clear
    have seams : ((marks free).union log.runSet).SeamsWithin start stop := by
      apply RunSet.SeamsWithin.union
      · rintro s seam e st - ⟨member, -⟩
        have := within _ member
        grind
      · exact canonical.seamsWithin start stop
      · rintro s seam st e st' ⟨member, -⟩ -
        have := within _ member
        grind
      · rintro s seam st e st' - ⟨member, -⟩
        have := within _ member
        grind
    rw [← whole] at separated seams
    obtain ⟨result, same⟩ := coalesce_runSet separated seams
    refine ⟨result, fun offset => statusAt_eq result.toSeparated fun other original => ?_⟩
    rw [same, whole, RunSet.covers_union, covers, covers_iff canonical.toSeparated]
    grind
  · simp only [nonempty, if_false]
    exact ⟨canonical, by grind⟩

def Differs (offset : Word) (before data : List UInt8) (query : Word) : Prop :=
  offset ≤ query ∧ query.toNat - offset.toNat < data.length ∧
    before[query.toNat - offset.toNat]? ≠ data[query.toNat - offset.toNat]?

instance decidableDiffers (offset : Word) (before data : List UInt8) (query : Word) :
    Decidable (Differs offset before data query) :=
  inferInstanceAs (Decidable (_ ∧ _ ∧ _))

theorem not_differs_nil (offset : Word) (before : List UInt8) (query : Word) :
    ¬ Differs offset before [] query := by
  simp [Differs]

theorem differs_cons {offset next : Word} (next_toNat : next.toNat = offset.toNat + 1)
    (before data : List UInt8) (d : UInt8) (query : Word) :
    Differs offset before (d :: data) query ↔
      before.head? ≠ some d ∧ query = offset ∨ Differs next before.tail data query := by
  simp only [Differs, UInt64.le_iff_toNat_le, ← UInt64.toNat_inj, next_toNat]
  by_cases first : query.toNat = offset.toNat
  · have not_next : ¬ offset.toNat + 1 ≤ offset.toNat := by omega
    simp [first, not_next, List.head?_eq_getElem?]
  · by_cases later : offset.toNat < query.toNat
    · obtain ⟨i, place⟩ : ∃ i, query.toNat = offset.toNat + 1 + i :=
        ⟨query.toNat - (offset.toNat + 1), by omega⟩
      have behind : offset.toNat + 1 + i - offset.toNat = i + 1 := by omega
      have ahead : offset.toNat + 1 + i - (offset.toNat + 1) = i := by omega
      have past : offset.toNat ≤ offset.toNat + 1 + i := by omega
      have not_first : ¬ offset.toNat + 1 + i = offset.toNat := by omega
      simp [place, behind, ahead, past, not_first]
    · omega

/-- Marking stretch by stretch changes the untouched bytes that differ, and those of the stretch
that is not over. -/
theorem markDifferences_refines {log : PatchLog} (canonical : log.Canonical) (offset : Word)
    (since? : Option Word) (before data : List UInt8)
    (range : offset.toNat + data.length < 0x10000000000000000)
    (earlier : ∀ since, since? = some since → since < offset) :
    (log.markDifferences offset since? before data).Canonical ∧ ∀ query,
      (log.markDifferences offset since? before data).statusAt query =
        if (since?.any (fun since => since ≤ query ∧ query < offset) ∨
            Differs offset before data query) ∧ log.statusAt query = .untouched then .changed
        else log.statusAt query := by
  induction data generalizing log offset since? before with
  | nil =>
    cases since? with
    | none => simpa [markDifferences, not_differs_nil] using canonical
    | some since =>
      simpa [markDifferences, not_differs_nil, and_assoc] using
        markChanged_refines canonical since offset
  | cons d data ih =>
    rw [List.length_cons] at range
    have next_toNat : (offset + 1).toNat = offset.toNat + 1 := by
      rw [UInt64.toNat_add, UInt64.toNat_one, Nat.mod_eq_of_lt (by omega)]
    have next_range : (offset + 1).toNat + data.length < 0x10000000000000000 := by omega
    have reached (query : Word) : query < offset + 1 ↔ query < offset ∨ query = offset := by
      simp only [UInt64.lt_iff_toNat_lt, ← UInt64.toNat_inj, next_toNat]
      omega
    have split_first (query : Word) := differs_cons next_toNat before data d query
    unfold markDifferences
    -- The byte differs or not, and a stretch is going on or not.
    cases differs : before.head? != some d <;> rcases since? with - | since
    · have same : before.head? = some d := by simpa using differs
      obtain ⟨result, statuses⟩ := ih canonical (offset + 1) none before.tail
        next_range (by simp)
      refine ⟨result, fun query => ?_⟩
      rw [statuses]
      simp [split_first, same]
    · have same : before.head? = some d := by simpa using differs
      obtain ⟨marked, changed⟩ := markChanged_refines canonical since offset
      obtain ⟨result, statuses⟩ := ih marked (offset + 1) none before.tail
        next_range (by simp)
      refine ⟨result, fun query => ?_⟩
      rw [statuses, changed]
      simp only [split_first, same, Option.any_none, Option.any_some, decide_eq_true_eq]
      grind
    · have other : before.head? ≠ some d := by simpa using differs
      obtain ⟨result, statuses⟩ := ih canonical (offset + 1) (some offset)
        before.tail next_range (by simp [reached])
      refine ⟨result, fun query => ?_⟩
      rw [statuses]
      simp only [split_first, reached, Option.any_none, Option.any_some, decide_eq_true_eq]
      grind
    · have other : before.head? ≠ some d := by simpa using differs
      have below := earlier since rfl
      obtain ⟨result, statuses⟩ := ih canonical (offset + 1) (some since)
        before.tail next_range (by simp [reached, below])
      refine ⟨result, fun query => ?_⟩
      rw [statuses]
      simp only [split_first, reached, Option.any_some, decide_eq_true_eq]
      grind

end PatchLog

end BinaryAtlas
