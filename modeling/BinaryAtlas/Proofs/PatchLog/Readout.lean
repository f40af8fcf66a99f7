import BinaryAtlas.Proofs.PatchLog.Marking

/-!
Reading a log out: the statuses of a range of bytes, and the list of runs, from which the log can be
made again.
-/

set_option autoImplicit false

namespace BinaryAtlas

/-- Steps that agree on what they set leave that value if one of them sets it. -/
theorem view_foldl {S A X : Type} (step : S → A → S) (view : S → X) (good : S → Prop)
    (sets : A → Prop) (target : X) (items : List A)
    (steps : ∀ state, ∀ item ∈ items, good state → good (step state item) ∧
      (sets item → view (step state item) = target) ∧
      (¬ sets item → view (step state item) = view state))
    {state : S} (initial : good state) :
    good (items.foldl step state) ∧
      ((∃ item ∈ items, sets item) → view (items.foldl step state) = target) ∧
      ((∀ item ∈ items, ¬ sets item) → view (items.foldl step state) = view state) := by
  induction items generalizing state with
  | nil => simpa using initial
  | cons first rest ih =>
    obtain ⟨kept, hit, miss⟩ := steps state first (by simp) initial
    obtain ⟨final, later_hit, later_miss⟩ :=
      ih (fun state item member => steps state item (by simp [member])) kept
    refine ⟨final, fun some => ?_, fun none => ?_⟩
    -- A later step may set the value once more; it sets the same one.
    · by_cases again : ∃ item ∈ rest, sets item
      · exact later_hit again
      · obtain ⟨item, member, set⟩ := some
        have last : item = first := by
          rcases List.mem_cons.1 member with same | other
          · exact same
          · exact absurd ⟨item, other, set⟩ again
        have untouched := later_miss fun other member set => again ⟨other, member, set⟩
        exact untouched.trans (hit (last ▸ set))
    · have untouched := later_miss fun other member => none other (by simp [member])
      exact untouched.trans (miss (none first (by simp)))

/-- Runs in order, none empty or without meaning, no two that touch with the same status. -/
structure CanonicalRuns (runs : List PatchRun) : Prop where
  nonempty : ∀ run ∈ runs, run.start < run.stop
  modified : ∀ run ∈ runs, run.status ≠ .untouched
  ordered : runs.Pairwise fun a b => a.start < b.start ∧ a.stop ≤ b.start
  unmerged : runs.Pairwise fun a b => a.stop = b.start → a.status ≠ b.status

namespace PatchLog

theorem runs_ascending (log : PatchLog) : log.runs.Pairwise fun a b => a.start < b.start := by
  rw [runs, List.pairwise_map]
  exact log.table.ascending.imp Std.compare_eq_lt.1

theorem canonicalRuns {log : PatchLog} (canonical : log.Canonical) : CanonicalRuns log.runs := by
  have held {run : PatchRun} := (log.mem_runs_iff run).1
  constructor
  · exact fun run member => canonical.nonempty (held member)
  · exact fun run member => canonical.modified (held member)
  · apply List.Pairwise.imp_of_mem ?_ log.runs_ascending
    intro run other first second before
    exact ⟨before, canonical.apart (held first) (held second) before⟩
  · apply List.Pairwise.imp_of_mem ?_ log.runs_ascending
    intro run other first second _ touch agree
    exact canonical.joined (touch ▸ held first) (agree ▸ held second)

theorem statusAt_of_mem_runs {log : PatchLog} (canonical : log.Canonical) {run : PatchRun}
    (member : run ∈ log.runs) {offset : Word} (covers : run.start ≤ offset ∧ offset < run.stop) :
    log.statusAt offset = run.status :=
  ((covers_iff canonical.toSeparated offset run.status).1
    ⟨run.start, run.stop, (log.mem_runs_iff run).1 member, covers⟩).1

theorem statusAt_of_no_run {log : PatchLog} (canonical : log.Canonical) {offset : Word}
    (none : ∀ run ∈ log.runs, ¬ (run.start ≤ offset ∧ offset < run.stop)) :
    log.statusAt offset = .untouched := by
  by_contra modified
  obtain ⟨start, stop, held, covers⟩ :=
    (covers_iff canonical.toSeparated offset _).2 ⟨rfl, modified⟩
  exact none ⟨start, stop, _⟩ ((log.mem_runs_iff _).2 held) covers

theorem ofRuns_runs {log : PatchLog} (canonical : log.Canonical) : ofRuns log.runs = log := by
  have built (offset : Word) : (ofRuns log.runs).Canonical ∧
      (ofRuns log.runs).statusAt offset = log.statusAt offset := by
    obtain ⟨result, hit, miss⟩ := view_foldl (fun log run => log.set run.start run.stop run.status)
      (fun log => log.statusAt offset) Canonical (fun run => run.start ≤ offset ∧ offset < run.stop)
      (log.statusAt offset) log.runs (by
        intro state run member kept
        obtain ⟨next, statuses⟩ := set_refines kept run.start run.stop run.status
        refine ⟨next, fun covers => ?_, fun clear => ?_⟩
        · rw [statuses, if_pos covers, statusAt_of_mem_runs canonical member covers]
        · rw [statuses, if_neg clear]) canonical_empty
    refine ⟨result, ?_⟩
    by_cases covered : ∃ run ∈ log.runs, run.start ≤ offset ∧ offset < run.stop
    · exact hit covered
    · have none : ∀ run ∈ log.runs, ¬ (run.start ≤ offset ∧ offset < run.stop) :=
        fun run member covers => covered ⟨run, member, covers⟩
      rw [statusAt_of_no_run canonical none]
      exact miss none
  exact canonical_unique (built 0).1 canonical fun offset => (built offset).2

theorem getElem?_paint (first last : Nat) (status : ByteStatus) (statuses : List ByteStatus)
    (i : Nat) :
    (paint first last status statuses)[i]? =
      statuses[i]?.map fun old => if first ≤ i ∧ i < last then status else old := by
  simp [paint, List.getElem?_mapIdx]

@[simp] theorem length_paint (first last : Nat) (status : ByteStatus)
    (statuses : List ByteStatus) : (paint first last status statuses).length = statuses.length := by
  simp [paint]

theorem toNat_limit (offset : Word) (length : Nat) :
    (Word.addCapped offset (.ofNatCapped length)).toNat =
      min (offset.toNat + length) 0xffffffffffffffff := by
  rw [Word.toNat_addCapped, Word.toNat_ofNatCapped]
  omega

theorem paint_place {offset limit stop : Word} (start : Word) {length i : Nat}
    (limit_eq : Word.addCapped offset (.ofNatCapped length) = limit) (place : i < length)
    (range : offset.toNat + i < 0x10000000000000000) (reaches : offset < stop) :
    (max start offset - offset).toNat ≤ i ∧ i < (min stop limit - offset).toNat ↔
      start ≤ offset + .ofNat i ∧ offset + .ofNat i < stop := by
  have limit_toNat := toNat_limit offset length
  rw [limit_eq] at limit_toNat
  have from_start : (max start offset - offset).toNat = start.toNat - offset.toNat := by
    rw [Word.max_eq]
    split
    · rename_i below
      have := UInt64.le_iff_toNat_le.1 below
      simp
      omega
    · rename_i above
      exact UInt64.toNat_sub_of_le _ _ (UInt64.le_of_lt (UInt64.not_le.1 above))
  have to_stop : (min stop limit - offset).toNat = min stop.toNat limit.toNat - offset.toNat := by
    have := UInt64.lt_iff_toNat_lt.1 reaches
    rw [Word.min_eq]
    split
    · rename_i inside
      have := UInt64.le_iff_toNat_le.1 inside
      rw [UInt64.toNat_sub_of_le _ _ (UInt64.le_of_lt reaches)]
      omega
    · rename_i past
      have := UInt64.lt_iff_toNat_lt.1 (UInt64.not_le.1 past)
      rw [UInt64.toNat_sub_of_le _ _ (UInt64.le_iff_toNat_le.2 (by omega))]
      omega
  have := stop.toNat_lt
  rw [from_start, to_stop, UInt64.le_iff_toNat_le, UInt64.lt_iff_toNat_lt,
    Word.toNat_add_ofNat range]
  omega

@[simp] theorem length_statuses (log : PatchLog) (offset : Word) (length : Nat) :
    (log.statuses offset length).length = length := by
  unfold statuses
  apply List.foldlRecOn (motive := fun statuses : List ByteStatus => statuses.length = length)
  · exact List.length_replicate
  · intro statuses size run _
    simpa using size

theorem getElem?_statuses {log : PatchLog} (canonical : log.Canonical) (offset : Word)
    {length i : Nat} (place : i < length) (range : offset.toNat + i < 0x10000000000000000) :
    (log.statuses offset length)[i]? = some (log.statusAt (offset + .ofNat i)) := by
  unfold statuses
  simp only
  generalize limit_eq : Word.addCapped offset (.ofNatCapped length) = limit
  have touching := mem_touching_iff canonical.toSeparated offset limit
  have covers := covers_iff canonical.toSeparated (offset + .ofNat i)
  obtain ⟨-, hit, miss⟩ := view_foldl
    (fun statuses e => paint (max e.1 offset - offset).toNat (min e.2.stop limit - offset).toNat
      e.2.status statuses) (fun statuses => statuses[i]?) (fun statuses => statuses.length = length)
    (fun e => e.1 ≤ offset + .ofNat i ∧ offset + .ofNat i < e.2.stop)
    (some (log.statusAt (offset + .ofNat i)))
    (log.table.between (log.firstTouching offset) limit) (by
      rintro statuses ⟨start, stop, status⟩ member size
      obtain ⟨held, reaches, before⟩ := (touching start stop status).1 member
      have present : statuses[i]? = some statuses[i] := by simp [size, place]
      refine ⟨by simpa using size, fun covered => ?_, fun clear => ?_⟩
      · have := (covers status).1 ⟨start, stop, held, covered⟩
        simp [getElem?_paint, paint_place start limit_eq place range reaches, present, covered,
          this.1]
      · simp [getElem?_paint, paint_place start limit_eq place range reaches, present, clear])
    (List.length_replicate)
  by_cases covered : ∃ e ∈ log.table.between (log.firstTouching offset) limit,
      e.1 ≤ offset + .ofNat i ∧ offset + .ofNat i < e.2.stop
  · exact hit covered
  · rw [miss fun e member clear => covered ⟨e, member, clear⟩]
    have untouched : log.statusAt (offset + .ofNat i) = .untouched := by
      by_contra modified
      obtain ⟨start, stop, held, from_start, to_stop⟩ := (covers _).2 ⟨rfl, modified⟩
      -- A run that covers a place of the range is one of those that were met.
      have limit_toNat := toNat_limit offset length
      rw [limit_eq] at limit_toNat
      have reaches : offset < stop ∧ start < limit := by
        have := stop.toNat_lt
        simp only [UInt64.le_iff_toNat_le, UInt64.lt_iff_toNat_lt, Word.toNat_add_ofNat range] at *
        omega
      exact covered ⟨(start, ⟨stop, _⟩), (touching ..).2 ⟨held, reaches⟩, from_start, to_stop⟩
    simp [untouched, place]

end PatchLog

end BinaryAtlas
