import BinaryAtlas.Proofs.Analysis.Referring
import BinaryAtlas.Proofs.Strings.Replacing

/-!
Working off the queue while functions may have been removed that wait in it. It comes to its end
with all functions explored; where they were explored before, it changes and tells nothing.
-/

set_option autoImplicit false

namespace BinaryAtlas

namespace Scheduler

/-- What others ask of analysis. -/
def orders (s : Scheduler) := (s.held, s.stopped, s.aborted, s.requested)

variable (s : Scheduler)

@[simp] theorem orders_setPhase (state : AnalysisState) (total : Nat) :
    (s.setPhase state total).orders = s.orders := by
  unfold setPhase
  split <;> rfl

@[simp] theorem orders_explored (batch : List Word) : (s.explored batch).orders = s.orders := by
  unfold explored
  induction batch generalizing s with
  | nil => rfl
  | cons f rest ih => exact ih (((s.beginFunction f).endFunction f).advance 1)

end Scheduler

theorem Metadata.strings_refer (m : Metadata) (found : Discovery) :
    (m.refer found).strings = m.strings := by
  have removed (keys : List ReferenceKey) (m : Metadata) :
      (keys.foldl (·.removeReference) m).strings = m.strings := by
    induction keys generalizing m with
    | nil => rfl
    | cons key rest ih => exact ih (m.removeReference key)
  have added (keys : List ReferenceKey) (m : Metadata) :
      (keys.foldl (fun m key => m.addReference key ((m.outgoing.get? key).getD true)) m).strings =
        m.strings := by
    induction keys generalizing m with
    | nil => rfl
    | cons key rest ih => exact ih (m.addReference key _)
  exact (added _ _).trans (removed _ _)

namespace Space

open Op

/-- What working off the queue leaves as it is. -/
def surroundings (s : Space) :=
  (s.ground, s.architecture, s.config, s.metadata.strings, s.scheduler.orders)

theorem surroundings_enrol (s : Space) (a : Word) :
    (s.enrol a).surroundings = s.surroundings := by
  unfold enrol
  split <;> rfl

theorem surroundings_done (s : Space) (found : Discovery) :
    (s.done found).surroundings = s.surroundings := by
  have enrols (starts : List Word) (s : Space) :
      (starts.foldl enrol s).surroundings = s.surroundings := by
    induction starts generalizing s with
    | nil => rfl
    | cons a rest ih => exact (ih (s.enrol a)).trans (s.surroundings_enrol a)
  show (s.informed found).surroundings = s.surroundings
  unfold informed
  split
  · rfl
  · refine (enrols _ _).trans ?_
    simp only [surroundings, Metadata.strings_refer]
    rfl

theorem surroundings_batch (found : List Discovery) (s : Space) :
    (found.foldl done s).surroundings = s.surroundings := by
  induction found generalizing s with
  | nil => rfl
  | cons first rest ih => exact (ih (s.done first)).trans (s.surroundings_done first)

theorem surroundings_begun (s : Space) : s.begun.surroundings = s.surroundings := by
  simp only [begun, surroundings, Scheduler.orders_setPhase, Scheduler.orders_explored]
  rfl

/-- What there is to find out about a function is known, and where it calls there are functions. -/
def Explored (found : Word → Discovery) (origin s : Space) (x : Word) : Prop :=
  ∃ f, s.functions.functions.get? x = some f ∧ f.informed (found x) = f ∧
    CallsMet found origin s x

theorem Explored.transfer {found found' : Word → Discovery} {origin origin' s s' : Space} {x : Word}
    (explored : Explored found origin s x) (same : found x = found' x)
    (ground : origin.ground = origin'.ground)
    (functions : s.functions.functions = s'.functions.functions) :
    Explored found' origin' s' x := by
  obtain ⟨f, held, learned, met⟩ := explored
  rw [same] at learned
  refine ⟨f, functions ▸ held, learned, fun call called valid => functions ▸ ?_⟩
  exact met call (same ▸ called) (by rw [isValid_ground ground, valid])

theorem get?_enrol {s : Space} {a x : Word} {f : Function}
    (held : s.functions.functions.get? x = some f) :
    (s.enrol a).functions.functions.get? x = some f := by
  unfold enrol
  split
  · have added := FunctionTable.get?_addAll s.functions [a] true x
    rw [held] at added
    exact added
  · exact held

theorem get?_enrols {starts : List Word} {s : Space} {x : Word} {f : Function}
    (held : s.functions.functions.get? x = some f) :
    (starts.foldl enrol s).functions.functions.get? x = some f := by
  induction starts generalizing s with
  | nil => exact held
  | cons a rest ih => exact ih (get?_enrol held)

theorem Explored.enrol {found : Word → Discovery} {origin s : Space} {x : Word}
    (explored : Explored found origin s x) (a : Word) :
    Explored found origin (s.enrol a) x := by
  obtain ⟨f, held, same, met⟩ := explored
  refine ⟨f, get?_enrol held, same, fun call called valid => ?_⟩
  rw [contains_enrol, met call called valid, Bool.or_true]

/-- What was found about a function is written down, then the functions it calls are added. -/
theorem informed_eq {s : Space} {found : Discovery} {f : Function}
    (held : s.functions.functions.get? found.start = some f) :
    ∃ t : Space, t.ground = s.ground ∧
      t.functions = { s.functions with
        functions := s.functions.functions.insert found.start (f.informed found) } ∧
      s.informed found = (FunctionTable.sortedSet (found.calls.map (·.2))).foldl enrol t := by
  refine ⟨{ s with
    functions := { s.functions with
      functions := s.functions.functions.insert found.start (f.informed found) }
    metadata := s.metadata.refer found }, rfl, rfl, ?_⟩
  unfold informed
  rw [held]

/-- Functions that were taken up in `before` are worked off one by one; the space is now `s`, and
those of `taken` remain. -/
structure Advance (found : Word → Discovery) (origin before s : Space) (taken : List Word) :
    Prop where
  ground : s.ground = origin.ground
  grown : ∀ x, before.functions.functions.contains x = true →
    s.functions.functions.contains x = true
  /-- Only functions call others. -/
  rooted : ∀ x, s.functions.functions.contains x = true →
    ∃ y, before.functions.functions.contains y = true
  new : ∀ x, s.functions.queue.contains x = true → s.functions.functions.contains x = true ∧
    before.functions.functions.contains x = false
  explored : ∀ x, s.functions.functions.contains x = true →
    s.functions.queue.contains x = true ∨ x ∈ taken ∨ Explored found origin s x

namespace Advance

variable {found : Word → Discovery} {origin before s : Space} {taken : List Word}

theorem enrol (advance : Advance found origin before s taken)
    (occupied : ∃ y, before.functions.functions.contains y = true) (a : Word) :
    Advance found origin before (s.enrol a) taken := by
  by_cases fresh : (s.isValid a && !s.functions.functions.contains a) = true
  · have new := fresh
    simp only [Bool.and_eq_true, Bool.not_eq_true'] at new
    have queue (x : Word) : (s.enrol a).functions.queue.contains x =
        (decide (x = a) || s.functions.queue.contains x) := by
      unfold Space.enrol
      rw [if_pos fresh]
      simp only [FunctionTable.queued_add s.functions a true new.2, Table.contains_insert]
    have functions (x : Word) : (s.enrol a).functions.functions.contains x =
        (decide (x = a) || s.functions.functions.contains x) := by
      rw [contains_enrol, new.1, Bool.and_true]
    refine ⟨(s.ground_enrol a).trans advance.ground, fun x held => ?_, fun x _ => occupied,
      fun x waiting => ?_, fun x held => ?_⟩
    · rw [functions, advance.grown x held, Bool.or_true]
    · rw [queue] at waiting
      rw [functions]
      by_cases here : x = a
      · subst here
        refine ⟨by simp, ?_⟩
        by_contra older
        rw [advance.grown x (by simpa using older)] at new
        exact Bool.noConfusion new.2
      · simpa [here] using advance.new x (by simpa [here] using waiting)
    · rw [functions] at held
      rw [queue]
      by_cases here : x = a
      · exact .inl (by simp [here])
      · rcases advance.explored x (by simpa [here] using held) with waits | remains | known
        · exact .inl (by simp [waits])
        · exact .inr (.inl remains)
        · exact .inr (.inr (known.enrol a))
  · unfold Space.enrol
    rw [if_neg fresh]
    exact advance

theorem enrols (advance : Advance found origin before s taken)
    (occupied : ∃ y, before.functions.functions.contains y = true) (starts : List Word) :
    Advance found origin before (starts.foldl Space.enrol s) taken := by
  induction starts generalizing s with
  | nil => exact advance
  | cons a rest ih => exact ih (advance.enrol occupied a)

/-- What was found about a function that remains is written down. -/
theorem learn {x : Word} {f : Function} {t : Space}
    (advance : Advance found origin before s taken) (remains : x ∈ taken)
    (held : s.functions.functions.get? x = some f) (ground : t.ground = s.ground)
    (functions : t.functions = { s.functions with
      functions := s.functions.functions.insert x (f.informed (found x)) }) :
    Advance found origin before t taken := by
  have contained (y : Word) :
      t.functions.functions.contains y = s.functions.functions.contains y := by
    rw [functions, Table.contains_insert]
    by_cases here : y = x
    · simp [here, Table.contains, held]
    · simp [here]
  have queue : t.functions.queue = s.functions.queue := by rw [functions]
  refine ⟨ground.trans advance.ground, fun y => ?_, fun y => ?_, fun y => ?_, fun y => ?_⟩
  · simpa only [contained] using advance.grown y
  · simpa only [contained] using advance.rooted y
  · simpa only [contained, queue] using advance.new y
  · rw [contained, queue]
    intro there
    rcases advance.explored y there with waits | remains' | ⟨g, known, same, met⟩
    · exact .inl waits
    · exact .inr (.inl remains')
    · -- The calls now written down may not be met yet, so the function itself still remains.
      by_cases here : y = x
      · exact .inr (.inl (here ▸ remains))
      · refine .inr (.inr ⟨g, ?_, same, fun call called valid => ?_⟩)
        · rw [functions, ← known]
          exact Table.get?_insert_of_ne _ _ here
        · rw [contained, met call called valid]

/-- A function that is explored, or is there no more, need not remain. -/
theorem drop {x : Word} (advance : Advance found origin before s (x :: taken))
    (known : s.functions.functions.contains x = true → Explored found origin s x) :
    Advance found origin before s taken := by
  refine { advance with explored := fun y there => ?_ }
  rcases advance.explored y there with waits | remains | explored
  · exact .inl waits
  · rcases List.mem_cons.1 remains with rfl | remains
    · exact .inr (.inr (known there))
    · exact .inr (.inl remains)
  · exact .inr (.inr explored)

/-- What was found about the next function is taken over. If it was removed, there is nothing to
do. -/
theorem done {x : Word} (advance : Advance found origin before s (x :: taken))
    (own : (found x).start = x) : Advance found origin before (s.done (found x)) taken := by
  suffices informed : Advance found origin before (s.informed (found x)) taken from
    ⟨informed.ground, informed.grown, informed.rooted, informed.new, informed.explored⟩
  cases held : s.functions.functions.get? x with
  | none =>
    have same : s.informed (found x) = s := by
      unfold Space.informed
      rw [own, held]
    rw [same]
    exact advance.drop fun there => by simp [Table.contains, held] at there
  | some f =>
    obtain ⟨t, ground, functions, whole⟩ := informed_eq (own.symm ▸ held)
    rw [own] at functions
    have written := advance.learn List.mem_cons_self held ground functions
    have learned : t.functions.functions.get? x = some (f.informed (found x)) := by
      rw [functions]
      exact Table.get?_insert_self _ _ _
    have occupied := advance.rooted x (by simp [Table.contains, held])
    rw [whole]
    refine (written.enrols occupied _).drop fun _ =>
      ⟨_, get?_enrols learned, rfl, fun call called valid => ?_⟩
    refine contains_enrols (.inl ⟨?_, ?_⟩)
    · exact (FunctionTable.mem_sortedSet _ _).2 (List.mem_map_of_mem called)
    · rw [isValid_ground written.ground, valid]

theorem batch (advance : Advance found origin before s taken) (own : ∀ x, (found x).start = x) :
    Advance found origin before ((taken.map found).foldl Space.done s) [] := by
  induction taken generalizing s with
  | nil => exact advance
  | cons x rest ih => exact ih (advance.done (own x))

/-- All that waits is taken up. -/
theorem begin (ground : s.ground = origin.ground)
    (pending : ∀ x, s.functions.functions.contains x = true →
      s.functions.queue.contains x = true ∨ Explored found origin s x) :
    Advance found origin s s.begun s.functions.queue.keys where
  ground := ground
  grown _ held := held
  rooted x held := ⟨x, held⟩
  new _ waiting := nomatch waiting
  explored x held := by
    rcases pending x held with waits | known
    · exact .inr (.inl ((Table.mem_keys_iff_contains _ x).2 waits))
    · exact .inr (.inr known)

/-- A batch after which something waits has added a function. -/
theorem size_lt (advance : Advance found origin before s taken)
    (waiting : s.functions.queue.keys.isEmpty = false) :
    max 1 before.functions.functions.size < max 1 s.functions.functions.size := by
  obtain ⟨x, member⟩ := List.isEmpty_eq_false_iff_exists_mem.1 waiting
  obtain ⟨there, new⟩ := advance.new x
    ((Table.mem_keys_iff_contains _ x).1 member)
  obtain ⟨y, older⟩ := advance.rooted x there
  have grown := Table.size_lt advance.grown new there
  have occupied : 0 < before.functions.functions.size := by
    obtain ⟨f, held⟩ := (Table.contains_iff _ y).1 older
    exact List.length_pos_of_mem (Table.get?_eq_some_iff.1 held)
  omega

end Advance

/-- Working off the queue comes to its end, also where functions were removed that waited in it. All
functions are explored then. -/
theorem analyzeQueue_explores (architecture : Option Architecture) (limits : ExploreLimits)
    {origin s : Space} (running : origin.scheduler.aborted = false)
    (same : s.surroundings = origin.surroundings)
    (pending : ∀ x, s.functions.functions.contains x = true →
      s.functions.queue.contains x = true ∨
        Explored (origin.discovery architecture limits) origin s x) (fuel : Nat)
    (enough : s.functions.queue.keys.isEmpty = true ∧ 0 < fuel ∨
      0x10000000000000001 < fuel + max 1 s.functions.functions.size) :
    ∃ worked, ((analyzeQueue architecture limits fuel) s).collect.2 = (true, worked) ∧
      worked.functions.queue = .empty ∧ worked.surroundings = origin.surroundings ∧
      ∀ x, worked.functions.functions.contains x = true →
        Explored (origin.discovery architecture limits) origin worked x := by
  induction fuel generalizing s with
  | zero =>
    have := s.functions.functions.size_le
    omega
  | succ fuel ih =>
    have ground : s.ground = origin.ground := congrArg (·.1) same
    cases waiting : s.functions.queue.keys.isEmpty with
    | true =>
      refine ⟨_, collect_analyzeQueue_empty architecture limits fuel s waiting, rfl, same,
        fun x held => ?_⟩
      rcases pending x held with waits | known
      · have member := (Table.mem_keys_iff_contains _ x).2 waits
        rw [List.isEmpty_iff.1 waiting] at member
        cases member
      · exact known
    | false =>
      have active : s.scheduler.aborted = false := by
        have orders : s.scheduler.orders = origin.scheduler.orders :=
          congrArg (·.2.2.2.2) same
        exact (congrArg (·.2.2.1) orders).trans running
      have alike : s.discovery architecture limits = origin.discovery architecture limits :=
        funext fun x => discovery_ground ground architecture limits x
      have advance := (Advance.begin ground pending).batch
        (origin.start_discovery architecture limits)
      rw [collect_analyzeQueue_succ architecture limits fuel s active waiting, alike]
      generalize after_eq : (s.functions.queue.keys.map
        (origin.discovery architecture limits)).foldl done s.begun = after at advance
      -- A batch that leaves something to do has added a function, which only so many words allow.
      refine ih ?_ (fun x held => ?_) ?_
      · rw [← after_eq, surroundings_batch, surroundings_begun, same]
      · rcases advance.explored x held with waits | remains | known
        · exact .inl waits
        · cases remains
        · exact .inr known
      · rcases enough with ⟨nothing, -⟩ | enough
        · rw [waiting] at nothing
          cases nothing
        · cases later : after.functions.queue.keys.isEmpty with
          | true =>
            have := s.functions.functions.size_le
            exact .inl ⟨rfl, by omega⟩
          | false =>
            have := advance.size_lt later
            exact .inr (by omega)

/-- Where there is a function, or none can be, none is added. -/
theorem enrol_known {s : Space} {a : Word}
    (known : s.isValid a = true → s.functions.functions.contains a = true) : s.enrol a = s := by
  unfold enrol
  cases valid : s.isValid a with
  | false => rfl
  | true => simp [known valid]

theorem enrols_known {starts : List Word} {s : Space}
    (known : ∀ a ∈ starts, s.isValid a = true → s.functions.functions.contains a = true) :
    starts.foldl enrol s = s := by
  induction starts with
  | nil => rfl
  | cons a rest ih =>
    rw [List.foldl_cons, enrol_known (known a List.mem_cons_self)]
    exact ih fun b member => known b (List.mem_cons_of_mem a member)

theorem changes_addFoundFunction_known {s : Space} {a : Word}
    (known : s.isValid a = true → s.functions.functions.contains a = true) :
    (addFoundFunction a).changes s = [] := by
  have inserted : insertFunction a s = .done false s := by
    cases valid : s.isValid a with
    | false =>
      show (if (!s.isValid a) = true then _ else _ : Op Bool) s = _
      rw [valid]
      rfl
    | true =>
      show (if (!s.isValid a) = true then _ else (update fun s =>
        ({ s with functions := (s.functions.add a true).1 }, (s.functions.add a true).2)) >>= _ :
          Op Bool) s = _
      rw [valid, if_neg (by simp)]
      show Run.bind (.done (s.functions.add a true).2
        { s with functions := (s.functions.add a true).1 }) _ = _
      rw [FunctionTable.add_known s.functions a true (known valid)]
      rfl
  show ((insertFunction a s).bind _).collect.1.filterMap _ = []
  rw [inserted]
  rfl

section Known

variable {found : Word → Discovery} {origin s : Space} {x : Word}

/-- What is known already changes nothing when it is found again. -/
theorem Explored.functions_informed (explored : Explored found origin s x)
    (ground : s.ground = origin.ground) (own : (found x).start = x) :
    (s.informed (found x)).functions = s.functions := by
  obtain ⟨f, held, same, met⟩ := explored
  rw [← own] at held
  obtain ⟨t, ground', functions, whole⟩ := informed_eq held
  have unchanged : t.functions = s.functions := by
    rw [functions, same]
    have again : s.functions.functions.insert (found x).start f = s.functions.functions :=
      Table.alter_same held
    rw [again]
  rw [whole, enrols_known, unchanged]
  intro a member valid
  obtain ⟨call, called, rfl⟩ := List.mem_map.1 ((FunctionTable.mem_sortedSet _ _).1 member)
  rw [unchanged]
  exact met call called (by rw [← valid]; exact isValid_ground (ground'.trans ground).symm _)

/-- Nor is anything told of it. -/
theorem Explored.changes_applyDiscovery (explored : Explored found origin s x)
    (ground : s.ground = origin.ground) (own : (found x).start = x) :
    (applyDiscovery (found x)).changes s = [] := by
  obtain ⟨f, held, same, met⟩ := explored
  rw [← own] at held
  have blocks : (found x).blocks = f.blocks := congrArg (·.blocks) same
  have calls : (found x).calls = f.calls := congrArg (·.calls) same
  have skipped : (found x).skipped = f.skipped := congrArg (·.skipped) same
  have updated : (updateFunction (found x)).changes s = [] := by
    unfold updateFunction
    rw [changes_read_bind, held]
    simp only [blocks, calls, skipped, bne_self_eq_false, Bool.or_self, Bool.false_eq_true,
      if_false]
    rfl
  unfold applyDiscovery
  rw [changes_bind, updated, List.nil_append, collect_updateFunction, held]
  simp only [if_true]
  rw [changes_bind]
  -- While the calls are gone through, there stay functions where they lead.
  refine changes_forEach_eq_nil (fun t => t.ground = origin.ground ∧
    ∀ call ∈ (found x).calls, origin.isValid call.2 = true →
      t.functions.functions.contains call.2 = true) (fun a member t kept => ?_) ?_
  · obtain ⟨ground, met⟩ := kept
    have known : t.isValid a = true → t.functions.functions.contains a = true := by
      intro valid
      obtain ⟨call, called, rfl⟩ := List.mem_map.1 ((FunctionTable.mem_sortedSet _ _).1 member)
      exact met call called (by rw [← valid]; exact isValid_ground ground.symm _)
    refine ⟨changes_addFoundFunction_known known, ?_⟩
    rw [collect_addFoundFunction, enrol_known known]
    exact ⟨ground, met⟩
  · refine ⟨ground, fun call called valid => ?_⟩
    show ((s.functions.functions.insert _ _).contains call.2) = true
    rw [Table.contains_insert, met call called valid, Bool.or_true]

/-- A batch of functions that are explored already is worked off without a change or a word. -/
theorem takeOver_known (own : ∀ x, (found x).start = x) (ground : s.ground = origin.ground)
    {batch : List Word} (explored : ∀ x ∈ batch, Explored found origin s x) :
    (forEach (fun discovery => do
        applyDiscovery discovery
        editScheduler (·.advance 1)) (batch.map found)).changes s = [] ∧
      ((batch.map found).foldl done s).functions = s.functions := by
  induction batch generalizing s with
  | nil => exact ⟨rfl, rfl⟩
  | cons x rest ih =>
    have first := explored x List.mem_cons_self
    have functions : (s.done (found x)).functions = s.functions :=
      first.functions_informed ground (own x)
    have ground' : (s.done (found x)).ground = origin.ground :=
      (congrArg (·.1) (s.surroundings_done (found x))).trans ground
    obtain ⟨told, after⟩ := ih ground' fun y member =>
      (explored y (List.mem_cons_of_mem x member)).transfer rfl rfl
        (congrArg (·.functions) functions).symm
    refine ⟨?_, after.trans functions⟩
    rw [List.map_cons, forEach, changes_bind, changes_bind, first.changes_applyDiscovery ground
      (own x), collect_bind, collect_applyDiscovery]
    exact told

end Known

theorem changes_editScheduler_bind {α : Type} (f : Scheduler → Scheduler) (next : Unit → Op α)
    (s : Space) : (editScheduler f >>= next).changes s =
      (next ()).changes { s with scheduler := f s.scheduler } :=
  rfl

theorem changes_analyzeQueue_succ (architecture : Option Architecture) (limits : ExploreLimits)
    (fuel : Nat) (s : Space) (running : s.scheduler.aborted = false)
    (waiting : s.functions.queue.keys.isEmpty = false) :
    (analyzeQueue architecture limits (fuel + 1)).changes s =
      (forEach (fun discovery => do
          applyDiscovery discovery
          editScheduler (·.advance 1))
        (s.functions.queue.keys.map (s.discovery architecture limits))).changes s.begun ++
      (analyzeQueue architecture limits fuel).changes
        ((s.functions.queue.keys.map (s.discovery architecture limits)).foldl done s.begun) := by
  rw [analyzeQueue]
  show Op.changes (if s.functions.queue.keys.isEmpty = true then _ else _ : Op Bool) _ = _
  rw [waiting, if_neg Bool.false_ne_true]
  unfold isAborted
  rw [changes_read_bind]
  show Op.changes (if s.scheduler.aborted = true then _ else _ : Op Bool) _ = _
  rw [running, if_neg Bool.false_ne_true]
  rw [changes_editScheduler_bind, changes_bind, collect_exploreBatch, changes_editScheduler_bind,
    changes_bind, collect_takeOver]
  simp only [List.length_map]
  have same (scheduler : Scheduler) (start : Word) :
      discovery { s with functions := s.functions.takeQueue.1, scheduler := scheduler } architecture
        limits start = s.discovery architecture limits start := by
    apply discovery_ground
    rfl
  exact congrArg (fun found => (forEach (fun discovery => do
      applyDiscovery discovery
      editScheduler (·.advance 1)) found).changes s.begun ++
    (analyzeQueue architecture limits fuel).changes (found.foldl done s.begun))
      (List.map_congr_left fun start _ => same _ start)

theorem changes_analyzeQueue_empty (architecture : Option Architecture) (limits : ExploreLimits)
    (fuel : Nat) (s : Space) (nothing : s.functions.queue.keys.isEmpty = true) :
    (analyzeQueue architecture limits (fuel + 1)).changes s = [] := by
  rw [analyzeQueue]
  show Op.changes (if s.functions.queue.keys.isEmpty = true then _ else _ : Op Bool) _ = _
  rw [nothing, if_pos rfl]
  rfl

/-- Where all functions are explored, working off the queue changes and tells nothing. -/
theorem analyzeQueue_silent (architecture : Option Architecture) (limits : ExploreLimits)
    {s : Space} (running : s.scheduler.aborted = false)
    (queued : ∀ x, s.functions.queue.contains x = true → s.functions.functions.contains x = true)
    (known : ∀ x, s.functions.functions.contains x = true →
      Explored (s.discovery architecture limits) s s x) (fuel : Nat) :
    (analyzeQueue architecture limits (fuel + 2)).changes s = [] ∧
      ((analyzeQueue architecture limits (fuel + 2)) s).collect.2.2.functions =
        { s.functions with queue := .empty } := by
  have own := s.start_discovery architecture limits
  cases waiting : s.functions.queue.keys.isEmpty with
  | true =>
    refine ⟨changes_analyzeQueue_empty architecture limits (fuel + 1) s waiting, ?_⟩
    rw [collect_analyzeQueue_empty architecture limits (fuel + 1) s waiting]
  | false =>
    have explored (x : Word) (member : x ∈ s.functions.queue.keys) :
        Explored (s.discovery architecture limits) s s.begun x :=
      known x (queued x ((Table.mem_keys_iff_contains _ x).1 member))
    obtain ⟨told, after⟩ := takeOver_known own (s := s.begun) rfl explored
    rw [changes_analyzeQueue_succ architecture limits (fuel + 1) s running waiting,
      collect_analyzeQueue_succ architecture limits (fuel + 1) s running waiting, told]
    generalize (s.functions.queue.keys.map (s.discovery architecture limits)).foldl done
      s.begun = worked at after
    have nothing : worked.functions.queue.keys.isEmpty = true := by
      rw [after]
      rfl
    refine ⟨changes_analyzeQueue_empty architecture limits fuel worked nothing, ?_⟩
    rw [collect_analyzeQueue_empty architecture limits fuel worked nothing, after]
    rfl

end Space

end BinaryAtlas
