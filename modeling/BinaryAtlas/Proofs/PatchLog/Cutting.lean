import BinaryAtlas.Proofs.RunSet
import BinaryAtlas.Proofs.TableSearch

/-!
The runs of a log and what it says about single bytes; then the parts its operations are made of,
each by the set of runs it leaves.
-/

set_option autoImplicit false

namespace BinaryAtlas

namespace PatchLog

def runSet (log : PatchLog) : RunSet :=
  fun start stop status => log.table.get? start = some ⟨stop, status⟩

theorem ext_runSet {log other : PatchLog}
    (same : ∀ start stop status, log.runSet start stop status ↔ other.runSet start stop status) :
    log = other := by
  obtain ⟨table⟩ := log
  obtain ⟨table'⟩ := other
  congr 1
  apply Table.ext_get?
  intro start
  apply Option.ext
  rintro ⟨stop, status⟩
  exact same start stop status

theorem mem_runs_iff (log : PatchLog) (run : PatchRun) :
    run ∈ log.runs ↔ log.runSet run.start run.stop run.status := by
  obtain ⟨start, stop, status⟩ := run
  simp only [runs, List.mem_map, runSet, Table.get?_eq_some_iff]
  constructor
  · rintro ⟨⟨s, e, st⟩, member, same⟩
    simp only [PatchRun.mk.injEq] at same
    obtain ⟨rfl, rfl, rfl⟩ := same
    exact member
  · intro member
    exact ⟨_, member, rfl⟩

theorem not_runSet_empty (start stop : Word) (status : ByteStatus) :
    ¬ empty.runSet start stop status := by
  simp [runSet, empty]

theorem put_runSet (log : PatchLog) (start stop s e : Word) (status st : ByteStatus) :
    (log.put start stop status).runSet s e st ↔
      if s = start then e = stop ∧ st = status else log.runSet s e st := by
  simp only [runSet, put, Table.get?_insert]
  grind

theorem foldl_put_runSet {A : Type} (start stop : A → Word) (status : A → ByteStatus)
    (items : List A) (distinct : (items.map start).Nodup) (log : PatchLog) (s e : Word)
    (st : ByteStatus) :
    (items.foldl (fun log item => log.put (start item) (stop item) (status item)) log).runSet
        s e st ↔
      (∃ item ∈ items, start item = s ∧ stop item = e ∧ status item = st) ∨
        log.runSet s e st ∧ ∀ item ∈ items, start item ≠ s := by
  induction items generalizing log with
  | nil => simp
  | cons first rest ih =>
    rw [List.map_cons, List.nodup_cons, List.mem_map] at distinct
    have fresh : ∀ item ∈ rest, start item ≠ start first :=
      fun item member same => distinct.1 ⟨item, member, same⟩
    rw [List.foldl_cons, ih distinct.2, put_runSet]
    by_cases same : s = start first
    · subst same
      grind
    · grind

theorem runSet_of_below? {log : PatchLog} {offset start stop : Word} {status : ByteStatus}
    (found : log.table.below? offset = some (start, ⟨stop, status⟩)) :
    log.runSet start stop status ∧ start < offset ∧
      ∀ other stop' status', log.runSet other stop' status' → other < offset → other ≤ start := by
  obtain ⟨held, before, greatest⟩ := (Table.below?_eq_some_iff ..).1 found
  exact ⟨held, before, fun other _ _ => greatest other _⟩

theorem le_of_below?_eq_none {log : PatchLog} {offset : Word}
    (missing : log.table.below? offset = none) :
    ∀ start stop status, log.runSet start stop status → offset ≤ start := by
  intro start stop status held
  have := (Table.below?_eq_none_iff ..).1 missing start _ held
  grind

theorem covers_iff {log : PatchLog} (separated : log.runSet.Separated) (offset : Word)
    (status : ByteStatus) :
    log.runSet.Covers offset status ↔ log.statusAt offset = status ∧ status ≠ .untouched := by
  obtain ⟨nonempty, modified, single, apart⟩ := separated
  unfold statusAt
  cases found : log.table.atOrBelow? offset with
  | none =>
    have missing (start stop : Word) (status : ByteStatus) (held : log.runSet start stop status) :
        offset < start := by
      have := (Table.atOrBelow?_eq_none_iff ..).1 found start _ held
      grind
    simp only [RunSet.Covers]
    grind
  | some entry =>
    obtain ⟨before, last, kept⟩ := entry
    obtain ⟨held, before_le, greatest⟩ := (Table.atOrBelow?_eq_some_iff ..).1 found
    have held : log.runSet before last kept := held
    -- A run with a lower start ends before this one begins, so no other can cover the offset.
    have greatest (start stop : Word) (status : ByteStatus) (other : log.runSet start stop status) :
        start ≤ offset → start ≤ before := greatest start _ other
    by_cases inside : offset < last
    · simp only [inside, if_true, RunSet.Covers]
      grind
    · simp only [inside, if_false, RunSet.Covers]
      grind

theorem statusAt_eq {log : PatchLog} (separated : log.runSet.Separated) {offset : Word}
    {status : ByteStatus}
    (covers : ∀ other, other ≠ .untouched → (log.runSet.Covers offset other ↔ status = other)) :
    log.statusAt offset = status := by
  simp only [covers_iff separated] at covers
  have first := covers (log.statusAt offset)
  have second := covers status
  grind

theorem statusAt_top {log : PatchLog} (separated : log.runSet.Separated) :
    log.statusAt Word.top = .untouched := by
  have top : Word.top = 0xffffffffffffffff := rfl
  apply statusAt_eq separated
  simp only [RunSet.Covers]
  grind

theorem splitAt_runSet {log : PatchLog} (separated : log.runSet.Separated) (offset : Word) :
    (log.splitAt offset).runSet = (log.runSet.below offset).union (log.runSet.onward offset) := by
  obtain ⟨nonempty, modified, single, apart⟩ := separated
  funext start stop status
  apply propext
  unfold splitAt
  cases found : log.table.below? offset with
  | none =>
    have missing := le_of_below?_eq_none found
    simp only [RunSet.below, RunSet.onward, RunSet.union]
    grind
  | some entry =>
    obtain ⟨before, last, kept⟩ := entry
    obtain ⟨held, before_lt, greatest⟩ := runSet_of_below? found
    by_cases across : offset < last
    · simp only [across, if_true, put_runSet, RunSet.below, RunSet.onward, RunSet.union]
      grind
    · simp only [across, if_false, RunSet.below, RunSet.onward, RunSet.union]
      grind

theorem splitAt_separated {log : PatchLog} (separated : log.runSet.Separated) (offset : Word) :
    (log.splitAt offset).runSet.Separated := by
  rw [splitAt_runSet separated]
  apply (separated.below offset).union (separated.onward offset)
  grind [RunSet.below, RunSet.onward]

theorem clearRange_runSet {log : PatchLog} (separated : log.runSet.Separated) {lo hi : Word}
    (ordered : lo ≤ hi) :
    (log.clearRange lo hi).runSet = (log.runSet.below lo).union (log.runSet.onward hi) := by
  funext start stop status
  apply propext
  have cleared : (log.clearRange lo hi).runSet start stop status ↔
      ((log.splitAt lo).splitAt hi).runSet start stop status ∧ (start < lo ∨ hi ≤ start) := by
    simp only [runSet, clearRange, Table.get?_filter_eq_some_iff]
    grind
  rw [cleared, splitAt_runSet (splitAt_separated separated lo), splitAt_runSet separated]
  obtain ⟨nonempty, modified, single, apart⟩ := separated
  constructor
  · simp only [RunSet.union, RunSet.below, RunSet.onward]
    grind
  · rintro (⟨whole, held, before, rfl⟩ | ⟨origin, held, past, rfl⟩)
    · exact ⟨.inl ⟨_, .inl ⟨whole, held, before, rfl⟩, by grind, by grind⟩, .inl before⟩
    -- A run that spans the whole range was cut at `lo` first, and its second part at `hi`.
    · by_cases left_of : origin < lo
      · exact ⟨.inr ⟨lo, .inr ⟨origin, held, by grind, by grind⟩, past, by grind⟩, by grind⟩
      · exact ⟨.inr ⟨origin, .inr ⟨origin, held, by grind, by grind⟩, past, rfl⟩, by grind⟩

theorem moveFrom_runSet {log : PatchLog} {left right : RunSet}
    (whole : log.runSet = left.union right) {offset : Word} {move : Word → Word}
    (stays : ∀ {start stop status}, left start stop status → start < offset)
    (moves : ∀ {start stop status}, right start stop status → offset ≤ start)
    (injective : ∀ {s e st s' e' st'}, right s e st → right s' e' st' → move s = move s' → s = s')
    (clear : ∀ {s e st s' e' st'}, left s e st → right s' e' st' → s ≠ move s') :
    (log.moveFrom offset move).runSet = left.union (right.moved move) := by
  have held (s e : Word) (st : ByteStatus) :
      log.table.get? s = some ⟨e, st⟩ ↔ left s e st ∨ right s e st :=
    iff_of_eq (congrFun (congrFun (congrFun whole s) e) st)
  have item (s e : Word) (st : ByteStatus) :
      (s, RunEnd.mk e st) ∈ log.table.entries.filter (fun entry => offset ≤ entry.1) ↔
        right s e st := by
    rw [List.mem_filter, ← Table.get?_eq_some_iff, held]
    have := @stays s e st
    have := @moves s e st
    grind
  -- No two moved runs are filed under one start, so their order does not matter.
  have distinct : ((log.table.entries.filter fun entry => offset ≤ entry.1).map
      fun entry => move entry.1).Nodup := by
    rw [List.Nodup, List.pairwise_map]
    apply List.Pairwise.imp_of_mem ?_ (log.table.ascending.filter _)
    rintro ⟨s, e, st⟩ ⟨s', e', st'⟩ first second before same
    have := injective ((item ..).1 first) ((item ..).1 second) same
    grind
  funext start stop status
  apply propext
  unfold moveFrom
  rw [foldl_put_runSet (fun entry : Word × RunEnd => move entry.1) (fun entry => move entry.2.stop)
    (fun entry => entry.2.status) _ distinct]
  simp only [RunSet.union, RunSet.moved, Prod.exists]
  constructor
  · rintro (⟨s, ⟨e, st⟩, member, rfl, rfl, rfl⟩ | ⟨stayed, -⟩)
    · exact .inr ⟨s, e, (item ..).1 member, rfl, rfl⟩
    · simp only [runSet, Table.get?_filter_eq_some_iff, held, decide_eq_true_eq] at stayed
      have := @moves start stop status
      grind
  · rintro (stayed | ⟨s, e, moved, rfl, rfl⟩)
    · refine .inr ⟨?_, ?_⟩
      · simp only [runSet, Table.get?_filter_eq_some_iff, held, decide_eq_true_eq]
        exact ⟨.inl stayed, stays stayed⟩
      · rintro ⟨s, e, st⟩ member
        exact (clear stayed ((item ..).1 member)).symm
    · exact .inl ⟨s, ⟨e, status⟩, (item ..).2 moved, rfl, rfl, rfl⟩

end PatchLog

end BinaryAtlas
