import BinaryAtlas.Analysis.Pass
import BinaryAtlas.Proofs.References.Indexing
import BinaryAtlas.Proofs.Space.Filing
import BinaryAtlas.Proofs.Space.Keeping

/-!
What a run of analysis does to a space, batch by batch and function by function, while those who
listen only take note.
-/

set_option autoImplicit false

namespace BinaryAtlas

namespace Op

variable {α : Type}

theorem collect_forEach (act : α → Op Unit) (items : List α) (s : Space) :
    ((forEach act items) s).collect.2.2 =
      items.foldl (fun s item => ((act item) s).collect.2.2) s := by
  induction items generalizing s with
  | nil => rfl
  | cons first rest ih => rw [forEach, collect_bind, ih]; rfl

end Op

namespace Scheduler

variable (s : Scheduler)

@[simp] theorem aborted_setPhase (state : AnalysisState) (total : Nat) :
    (s.setPhase state total).aborted = s.aborted := by
  unfold setPhase
  split <;> rfl

@[simp] theorem updates_setPhase (state : AnalysisState) (total : Nat) :
    (s.setPhase state total).updates = s.updates := by
  unfold setPhase
  split <;> rfl

@[simp] theorem requested_setPhase (state : AnalysisState) (total : Nat) :
    (s.setPhase state total).requested = s.requested := by
  unfold setPhase
  split <;> rfl

theorem countOf_bump (counts : Table Word Nat) (key query : Word) :
    countOf (bump counts key) query = countOf counts query + if query = key then 1 else 0 := by
  unfold bump
  rw [countOf, Table.get?_insert]
  by_cases same : query = key <;> simp [same, countOf]

/-- Functions are explored one after the other. -/
def explored (batch : List Word) : Scheduler :=
  batch.foldl (fun scheduler f => ((scheduler.beginFunction f).endFunction f).advance 1) s

@[simp] theorem aborted_explored (batch : List Word) : (s.explored batch).aborted = s.aborted := by
  unfold explored
  induction batch generalizing s with
  | nil => rfl
  | cons f rest ih => exact ih (((s.beginFunction f).endFunction f).advance 1)

@[simp] theorem requested_explored (batch : List Word) :
    (s.explored batch).requested = s.requested := by
  unfold explored
  induction batch generalizing s with
  | nil => rfl
  | cons f rest ih => exact ih (((s.beginFunction f).endFunction f).advance 1)

theorem countOf_explored (batch : List Word) (query : Word) :
    countOf (s.explored batch).updates query = countOf s.updates query + batch.count query := by
  unfold explored
  induction batch generalizing s with
  | nil => rfl
  | cons f rest ih =>
    have first : countOf (((s.beginFunction f).endFunction f).advance 1).updates query =
        countOf s.updates query + if query = f then 1 else 0 := countOf_bump s.updates f query
    rw [List.foldl_cons, ih, first, List.count_cons]
    by_cases same : query = f
    · simp [same]
      omega
    · simp [same, Ne.symm same]

end Scheduler

namespace FunctionTable

theorem mem_eraseReps (l : List Word) (a : Word) : a ∈ l.eraseReps ↔ a ∈ l := by
  -- The loop holds back the word it met last; those before it are in the accumulator.
  have loop (l : List Word) (last : Word) (passed : List Word) :
      a ∈ List.eraseRepsBy.loop (· == ·) last l passed ↔ a ∈ passed ∨ a = last ∨ a ∈ l := by
    induction l generalizing last passed with
    | nil => simp [List.eraseRepsBy.loop, or_comm]
    | cons next rest ih =>
      unfold List.eraseRepsBy.loop
      cases same : last == next with
      | true =>
        rw [beq_iff_eq] at same
        simp [ih, same]
      | false =>
        simp only [ih, List.mem_cons]
        tauto
  cases l with
  | nil => rfl
  | cons first rest => exact (loop rest first []).trans (by simp)

theorem mem_sortedSet (l : List Word) (a : Word) : a ∈ sortedSet l ↔ a ∈ l := by
  rw [sortedSet, mem_eraseReps, List.mem_mergeSort]

variable (t : FunctionTable) (a query : Word) (auto : Bool)

theorem contains_add :
    (t.add a auto).1.functions.contains query =
      (decide (query = a) || t.functions.contains query) := by
  have added := get?_addAll t [a] auto query
  unfold Table.contains
  show ((t.addAll [a] auto).functions.get? query).isSome = _
  rw [added]
  by_cases same : query = a
  · cases t.functions.get? query <;> simp [same]
  · cases t.functions.get? query <;> simp [same]

theorem add_known (old : t.functions.contains a = true) : t.add a auto = (t, false) := by
  unfold add
  rw [old]
  rfl

theorem queued_add (new : t.functions.contains a = false) :
    (t.add a auto).1.queue = t.queue.insert a () := by
  unfold add
  rw [new]
  rfl

end FunctionTable

/-- A function with what was found about it. Its name and whose it is stay. -/
def Function.informed (f : Function) (found : Discovery) : Function :=
  { f with blocks := found.blocks, calls := found.calls, skipped := found.skipped }

namespace Metadata

/-- The references of one function are renewed. -/
def refer (m : Metadata) (found : Discovery) : Metadata :=
  m.renewReferences (found.blocks.map fun b => ⟨b.start, b.stop⟩) found.references

end Metadata

namespace Space

open Op

/-- What exploring looks at. -/
def ground (s : Space) : Backend × Storage × SegmentMap := (s.backend, s.storage, s.map)

def discovery (s : Space) (architecture : Option Architecture) (limits : ExploreLimits)
    (start : Word) : Discovery :=
  match architecture with
  | some a => .ofStart s a limits start
  | none => .unknown start

theorem start_discovery (s : Space) (architecture : Option Architecture) (limits : ExploreLimits)
    (start : Word) : (s.discovery architecture limits start).start = start := by
  cases architecture with
  | none => rfl
  | some a =>
    unfold discovery Discovery.ofStart
    simp only
    split <;> rfl

section Ground

variable {s s' : Space} (same : s.ground = s'.ground)

include same

theorem isValid_ground (a : Word) : s.isValid a = s'.isValid a := by
  simp only [ground, Prod.mk.injEq] at same
  simp only [isValid, same]

theorem explore_ground (architecture : Architecture) (limits : ExploreLimits) (start : Word)
    (fuel : Nat) (current : Option Word) (e : Exploration) :
    Exploration.explore s architecture limits start fuel current e =
      Exploration.explore s' architecture limits start fuel current e := by
  have fetched (a : Word) :
      Exploration.fetch? s architecture a = Exploration.fetch? s' architecture a := by
    simp only [ground, Prod.mk.injEq] at same
    unfold Exploration.fetch? isExecutableAt read
    rw [same.1, same.2.1, same.2.2]
  have operands (e : Exploration) (a : Word) (i : Instruction) :
      e.addOperands s a i = e.addOperands s' a i := by
    simp only [Exploration.addOperands, isValid_ground same]
  induction fuel generalizing current e with
  | zero => rfl
  | succ fuel ih =>
    cases current with
    | none => simp only [Exploration.explore, ih]
    | some a => simp only [Exploration.explore, ih, fetched, operands]

theorem discovery_ground (architecture : Option Architecture) (limits : ExploreLimits)
    (start : Word) :
    s.discovery architecture limits start = s'.discovery architecture limits start := by
  cases architecture with
  | none => rfl
  | some a => simp only [discovery, Discovery.ofStart, explore_ground same]

end Ground

/-- Where analysis finds that a function should begin, it adds one. -/
def enrol (s : Space) (a : Word) : Space :=
  if s.isValid a && !s.functions.functions.contains a then
    { s with functions := (s.functions.add a true).1, scheduler := s.scheduler.noteSubmit a }
  else s

/-- A space after the findings about one function were taken over. -/
def informed (s : Space) (found : Discovery) : Space :=
  match s.functions.functions.get? found.start with
  | none => s
  | some f =>
    (FunctionTable.sortedSet (found.calls.map (·.2))).foldl enrol
      { s with
        functions := { s.functions with
          functions := s.functions.functions.insert found.start (f.informed found) }
        metadata := s.metadata.refer found }

/-- A space when its whole queue has been taken up. -/
def begun (s : Space) : Space :=
  let batch := s.functions.queue.keys
  { s with
    functions := { s.functions with queue := .empty }
    scheduler := ((s.scheduler.setPhase .disassembling batch.length).explored batch).setPhase
      .analyzing batch.length }

/-- A space when one of the functions taken up is done with. -/
def done (s : Space) (found : Discovery) : Space :=
  { s.informed found with scheduler := (s.informed found).scheduler.advance 1 }

theorem collect_editScheduler_bind {α : Type} (f : Scheduler → Scheduler) (next : Unit → Op α)
    (s : Space) : ((editScheduler f >>= next) s).collect.2 =
      ((next ()) { s with scheduler := f s.scheduler }).collect.2 :=
  collect_bind (editScheduler f) next s

theorem collect_tellQuietly {event : ChangeEvent} (plain : event.isAboutSymbol = false)
    (s : Space) : ((tellQuietly [event]) s).collect.2.2 = s :=
  congrArg (·.2.2) (collect_tellQuietly_plain (List.forall_mem_singleton.2 plain) s)

theorem collect_addFoundFunction (a : Word) (s : Space) :
    ((addFoundFunction a) s).collect.2.2 = s.enrol a := by
  unfold addFoundFunction insertFunction enrol
  rw [collect_bind, collect_read_bind]
  cases s.isValid a with
  | false => rfl
  | true =>
    simp only [Bool.not_true, Bool.false_eq_true, if_false, Bool.true_and]
    rw [collect_update_bind]
    cases known : s.functions.functions.contains a with
    | true =>
      simp only [FunctionTable.add_known s.functions a true known]
      rfl
    | false =>
      have added : (s.functions.add a true).2 = true := by
        unfold FunctionTable.add
        rw [known]
        rfl
      simp only [added, if_true, Bool.not_false]
      exact collect_tellQuietly rfl _

theorem collect_updateFunction (found : Discovery) (s : Space) :
    ((updateFunction found) s).collect.2 =
      match s.functions.functions.get? found.start with
      | none => (false, s)
      | some f => (true, { s with functions := { s.functions with
          functions := s.functions.functions.insert found.start (f.informed found) } }) := by
  unfold updateFunction
  rw [collect_read_bind]
  cases s.functions.functions.get? found.start with
  | none => rfl
  | some f =>
    simp only
    rw [collect_bind]
    split
    · rw [collect_bind, collect_tellQuietly rfl]
      rfl
    · rfl

theorem collect_applyDiscovery (found : Discovery) (s : Space) :
    ((applyDiscovery found) s).collect.2.2 = s.informed found := by
  unfold applyDiscovery informed
  rw [collect_bind, collect_updateFunction]
  cases s.functions.functions.get? found.start with
  | none => rfl
  | some f =>
    simp only [if_true]
    rw [collect_bind, collect_forEach]
    simp only [collect_addFoundFunction]
    rfl

theorem collect_exploreBatch (architecture : Option Architecture) (limits : ExploreLimits)
    (batch : List Word) (s : Space) : ((exploreBatch architecture limits batch) s).collect.2 =
      (batch.map (s.discovery architecture limits),
        { s with scheduler := s.scheduler.explored batch }) :=
  rfl

theorem collect_takeOver (found : List Discovery) (s : Space) :
    ((forEach (fun discovery => do
        applyDiscovery discovery
        editScheduler (·.advance 1)) found) s).collect.2.2 = found.foldl done s := by
  rw [collect_forEach]
  congr 1
  funext s discovery
  rw [collect_bind, collect_applyDiscovery]
  rfl

/-- One batch: it is taken up, and what was found is taken over function by function. -/
theorem collect_analyzeQueue_succ (architecture : Option Architecture) (limits : ExploreLimits)
    (fuel : Nat) (s : Space) (running : s.scheduler.aborted = false)
    (waiting : s.functions.queue.keys.isEmpty = false) :
    ((analyzeQueue architecture limits (fuel + 1)) s).collect.2 =
      ((analyzeQueue architecture limits fuel) ((s.functions.queue.keys.map
        (s.discovery architecture limits)).foldl done s.begun)).collect.2 := by
  rw [analyzeQueue, collect_update_bind]
  show ((if s.functions.queue.keys.isEmpty = true then _ else _ : Op Bool) _).collect.2 = _
  rw [waiting, if_neg Bool.false_ne_true]
  unfold isAborted
  rw [collect_read_bind]
  show ((if s.scheduler.aborted = true then _ else _ : Op Bool) _).collect.2 = _
  rw [running, if_neg Bool.false_ne_true]
  rw [collect_editScheduler_bind, collect_bind, collect_exploreBatch, collect_editScheduler_bind,
    collect_bind, collect_takeOver]
  simp only [List.length_map]
  -- Nothing that exploring looks at has changed since the batch was taken.
  have same (scheduler : Scheduler) (start : Word) :
      discovery { s with functions := s.functions.takeQueue.1, scheduler := scheduler } architecture
        limits start = s.discovery architecture limits start := by
    apply discovery_ground
    rfl
  exact congrArg (fun found => ((analyzeQueue architecture limits fuel)
    (found.foldl done s.begun)).collect.2) (List.map_congr_left fun start _ => same _ start)

theorem collect_analyzeQueue_empty (architecture : Option Architecture) (limits : ExploreLimits)
    (fuel : Nat) (s : Space) (nothing : s.functions.queue.keys.isEmpty = true) :
    ((analyzeQueue architecture limits (fuel + 1)) s).collect.2 =
      (true, { s with functions := { s.functions with queue := .empty } }) := by
  rw [analyzeQueue, collect_update_bind]
  show ((if s.functions.queue.keys.isEmpty = true then _ else _ : Op Bool) _).collect.2 = _
  rw [nothing, if_pos rfl]
  rfl

end Space

end BinaryAtlas
