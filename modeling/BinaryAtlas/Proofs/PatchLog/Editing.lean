import BinaryAtlas.Proofs.PatchLog.Joining

/-!
The four edits of a log. Each leaves it canonical, and what it says about a byte afterwards is told
by what it said before.
-/

set_option autoImplicit false

namespace BinaryAtlas

namespace PatchLog

def Canonical (log : PatchLog) : Prop := log.runSet.Canonical

theorem canonical_empty : empty.Canonical := by
  have none : empty.runSet = .none := by
    funext start stop status
    simp [not_runSet_empty, RunSet.none]
  rw [Canonical, none]
  exact RunSet.canonical_none

theorem canonical_unique {log other : PatchLog} (first : log.Canonical) (second : other.Canonical)
    (same : ∀ offset, log.statusAt offset = other.statusAt offset) : log = other := by
  have covers (offset : Word) (status : ByteStatus) :
      log.runSet.Covers offset status ↔ other.runSet.Covers offset status := by
    rw [covers_iff first.toSeparated, covers_iff second.toSeparated, same]
  apply ext_runSet
  intro start stop status
  constructor
  · exact first.subset_of_covers second covers
  · exact second.subset_of_covers first fun offset status => (covers offset status).symm

/-- Head, middle and tail of a log, put side by side and joined at the two seams. -/
theorem coalesce_splice {log : PatchLog} {head middle tail : RunSet}
    (whole : log.runSet = (head.union middle).union tail) (first : head.Canonical)
    (second : middle.Canonical) (third : tail.Canonical) {lo hi : Word} (ordered : lo ≤ hi)
    (ends : ∀ {start stop status}, head start stop status → stop ≤ lo)
    (within : ∀ {start stop status}, middle start stop status → lo ≤ start ∧ stop ≤ hi)
    (begins : ∀ {start stop status}, tail start stop status → hi ≤ start) :
    (log.coalesce lo hi).Canonical ∧ ∀ offset status,
      (log.coalesce lo hi).runSet.Covers offset status ↔
        (head.Covers offset status ∨ middle.Covers offset status) ∨ tail.Covers offset status := by
  obtain ⟨separated, seams⟩ := RunSet.splice first second third ordered ends within begins
  rw [← whole] at separated seams
  obtain ⟨canonical, covers⟩ := coalesce_runSet separated seams
  refine ⟨canonical, fun offset status => ?_⟩
  rw [covers, whole, RunSet.covers_union, RunSet.covers_union]

theorem set_refines {log : PatchLog} (canonical : log.Canonical) (start stop : Word)
    (status : ByteStatus) :
    (log.set start stop status).Canonical ∧ ∀ offset,
      (log.set start stop status).statusAt offset =
        if start ≤ offset ∧ offset < stop then status else log.statusAt offset := by
  unfold set
  by_cases ordered : start < stop
  · simp only [ordered, if_true]
    have cleared := clearRange_runSet canonical.toSeparated (Std.le_of_lt ordered)
    have whole : (if status = .untouched then log.clearRange start stop
        else (log.clearRange start stop).put start stop status).runSet =
          ((log.runSet.below start).union (.one start stop status)).union
            (log.runSet.onward stop) := by
      funext s e st
      apply propext
      split
      · rw [cleared]
        grind [RunSet.union, RunSet.one]
      · rw [put_runSet, cleared]
        simp only [RunSet.union, RunSet.below, RunSet.onward, RunSet.one]
        grind
    obtain ⟨result, covers⟩ := coalesce_splice whole (canonical.below start)
      (RunSet.canonical_one ordered status) (canonical.onward stop) (Std.le_of_lt ordered)
      (by grind [RunSet.below]) (by grind [RunSet.one]) (by grind [RunSet.onward])
    -- A byte has its status from the one of the three parts that covers it.
    refine ⟨result, fun offset => statusAt_eq result.toSeparated fun other _ => ?_⟩
    simp only [covers, RunSet.covers_below, RunSet.covers_one, RunSet.covers_onward,
      covers_iff canonical.toSeparated]
    grind
  · simp only [ordered, if_false]
    exact ⟨canonical, by grind⟩

def MovesWithin (log : PatchLog) (offset length : Word) : Prop :=
  offset ≤ Word.top - length ∧ ∀ {start stop status}, log.runSet start stop status →
    offset < stop → stop ≤ Word.top - length

theorem insertShift_refines {log : PatchLog} (canonical : log.Canonical) {offset length : Word}
    (some : length ≠ 0) (fits : log.MovesWithin offset length) :
    (log.insertShift offset length).Canonical ∧ ∀ query,
      (log.insertShift offset length).statusAt query =
        if query < offset then log.statusAt query
        else if query < offset + length then .inserted
        else log.statusAt (query - length) := by
  have top : Word.top = 0xffffffffffffffff := rfl
  obtain ⟨room, fits⟩ := fits
  have tail_canonical := canonical.onward offset
  have tail_fits {s e : Word} {st : ByteStatus} (held : log.runSet.onward offset s e st) :
      offset ≤ s ∧ s < e ∧ e ≤ Word.top - length := by
    have := tail_canonical.nonempty held
    obtain ⟨origin, held, past, rfl⟩ := held
    have := fits held past
    grind
  have increasing {a b : Word} (_ : offset ≤ a) (before : a < b) (bound : b ≤ Word.top - length) :
      a + length < b + length := by
    grind
  -- The moved runs all end low enough, so none wraps around onto those that stay.
  have moved : ((log.splitAt offset).moveFrom offset (· + length)).runSet =
      (log.runSet.below offset).union ((log.runSet.onward offset).moved (· + length)) := by
    apply moveFrom_runSet (splitAt_runSet canonical.toSeparated offset)
    · grind [RunSet.below]
    · grind
    · grind
    · rintro s e st s' e' st' ⟨_, _, before, _⟩ held
      have := tail_fits held
      grind
  have whole : (((log.splitAt offset).moveFrom offset (· + length)).put offset (offset + length)
      .inserted).runSet = ((log.runSet.below offset).union
        (.one offset (offset + length) .inserted)).union
          ((log.runSet.onward offset).moved (· + length)) := by
    funext s e st
    apply propext
    rw [put_runSet, moved]
    have moved_past : (log.runSet.onward offset).moved (· + length) s e st → offset < s := by
      rintro ⟨s', e', held, rfl, rfl⟩
      have := tail_fits held
      grind
    simp only [RunSet.union, RunSet.below, RunSet.one]
    grind
  have ordered : offset < offset + length := by grind
  obtain ⟨result, covers⟩ := coalesce_splice whole (canonical.below offset)
    (RunSet.canonical_one ordered .inserted)
    (tail_canonical.moved increasing fun held => ⟨(tail_fits held).1, (tail_fits held).2.2⟩)
    (Std.le_of_lt ordered) (by grind [RunSet.below]) (by grind [RunSet.one]) (by
      rintro _ _ _ ⟨s, e, held, rfl, rfl⟩
      have := tail_fits held
      grind)
  simp only [insertShift, some, if_false]
  refine ⟨result, fun query => statusAt_eq result.toSeparated fun other _ => ?_⟩
  rw [covers, RunSet.covers_movedUp fun held => (tail_fits held).2]
  simp only [RunSet.covers_below, RunSet.covers_one, RunSet.covers_onward,
    covers_iff canonical.toSeparated]
  grind

theorem removeShift_refines {log : PatchLog} (canonical : log.Canonical) (offset : Word)
    {length : Word} (some : length ≠ 0) :
    (log.removeShift offset length).Canonical ∧ ∀ query,
      (log.removeShift offset length).statusAt query =
        if query < offset then log.statusAt query
        else if query ≤ Word.top - length then log.statusAt (query + length)
        else .untouched := by
  have top : Word.top = 0xffffffffffffffff := rfl
  have stop_eq := Word.addCapped_eq offset length
  simp only [removeShift, some, if_false]
  generalize Word.addCapped offset length = stop at stop_eq
  have ordered : offset ≤ stop := by grind
  have tail_canonical := canonical.onward stop
  -- With the end of the range beyond the last offset there is no tail.
  have tail_fits {s e : Word} {st : ByteStatus} (held : log.runSet.onward stop s e st) :
      stop = offset + length ∧ offset ≤ Word.top - length ∧ stop ≤ s ∧ s < e := by
    have := tail_canonical.nonempty held
    obtain ⟨origin, held, past, rfl⟩ := held
    grind
  have increasing {a b : Word} (above : length ≤ a) (before : a < b) (_ : b ≤ Word.top) :
      a - length < b - length := by
    grind
  have whole : ((log.clearRange offset stop).moveFrom stop (· - length)).runSet =
      ((log.runSet.below offset).union .none).union
        ((log.runSet.onward stop).moved (· - length)) := by
    have cut : (log.clearRange offset stop).runSet =
        ((log.runSet.below offset).union .none).union (log.runSet.onward stop) := by
      rw [clearRange_runSet canonical.toSeparated ordered]
      funext s e st
      simp [RunSet.union, RunSet.none]
    apply moveFrom_runSet cut
    · grind [RunSet.union, RunSet.none, RunSet.below]
    · grind
    · grind
    · rintro s e st s' e' st' (⟨_, _, before, _⟩ | ⟨⟨⟩⟩) held
      have := tail_fits held
      grind
  obtain ⟨result, covers⟩ := coalesce_splice whole (canonical.below offset) RunSet.canonical_none
    (tail_canonical.moved increasing fun held => by have := tail_fits held; grind)
    (Std.le_refl offset) (by grind [RunSet.below]) (by grind [RunSet.none]) (by
      rintro _ _ _ ⟨s, e, held, rfl, rfl⟩
      have := tail_fits held
      grind)
  refine ⟨result, fun query => statusAt_eq result.toSeparated fun other original => ?_⟩
  rw [covers, RunSet.covers_movedDown fun held => by have := tail_fits held; grind]
  simp only [RunSet.covers_below, RunSet.not_covers_none, RunSet.covers_onward,
    covers_iff canonical.toSeparated]
  have last := statusAt_top canonical.toSeparated
  by_cases room : offset ≤ Word.top - length
  · have reached : query ≤ Word.top - length → (offset ≤ query ↔ stop ≤ query + length) := by
      grind
    grind
  · have beyond : stop ≤ query + length → query + length = Word.top := by
      grind
    grind

end PatchLog

end BinaryAtlas
