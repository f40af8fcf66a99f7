import BinaryAtlas.Proofs.Analysis.Referring
import BinaryAtlas.Proofs.Undo.Provenance

/-!
What removing a function does to references. A reference is not kept with the function it was found
in, so every automatic one goes that begins in a block of the function, whoever else has its place.
-/

set_option autoImplicit false

namespace BinaryAtlas

namespace Exploration

variable {space : Space} {architecture : Architecture} {limits : ExploreLimits} {start : Word}

/-- Where a call was met, a reference to what it calls was noted. -/
def CallsReferred (e : Exploration) : Prop :=
  ∀ call ∈ e.calls, ⟨call.1, call.2, .code⟩ ∈ e.references

variable {e : Exploration}

theorem CallsReferred.addReference (referred : e.CallsReferred) (source target : Word)
    (kind : ReferenceKind) : (e.addReference source target kind).CallsReferred :=
  fun call member => List.mem_append_left _ (referred call member)

theorem CallsReferred.addTarget (referred : e.CallsReferred) (a : Word) :
    (e.addTarget a).CallsReferred := by
  unfold Exploration.addTarget
  simp only
  split
  · exact referred
  · exact referred

theorem CallsReferred.addOperands (referred : e.CallsReferred) (space : Space) (a : Word)
    (i : Instruction) : (e.addOperands space a i).CallsReferred := by
  unfold Exploration.addOperands
  refine List.foldlRecOn (motive := CallsReferred) i.tokens _ referred fun e referred t _ => ?_
  split
  · exact referred.addReference a t.value .data
  · exact referred

theorem CallsReferred.addBranch (referred : e.CallsReferred) (a : Word) (b : Branch) :
    (addBranch a e b).CallsReferred := by
  obtain ⟨kind, target⟩ := b
  cases target with
  | none => exact referred
  | some target =>
    cases kind with
    | call =>
      -- The one kind of branch that adds to both lists.
      intro call member
      rcases List.mem_append.1 member with before | here
      · exact List.mem_append_left _ (referred call before)
      · rw [List.mem_singleton.1 here]
        exact List.mem_append_right _ (List.mem_singleton_self _)
    | unconditional => exact (referred.addReference a target .code).addTarget target
    | conditional => exact (referred.addReference a target .code).addTarget target
    | «return» | indirect | exception => exact referred

theorem CallsReferred.decode (referred : e.CallsReferred) (space : Space) (a : Word)
    (i : Instruction) : (e.decode space a i).CallsReferred :=
  List.foldlRecOn (motive := CallsReferred) i.branches _ (referred.addOperands space a i)
    fun _ referred b _ => referred.addBranch a b

theorem Step.callsReferred {stage next : Stage} (step : Step space architecture stage next)
    (referred : stage.known.CallsReferred) : next.known.CallsReferred := by
  cases step with
  | take => exact referred
  | meet => exact referred
  | fail => exact referred
  | goesOn => exact CallsReferred.decode referred space _ _
  | ends =>
    have decoded := CallsReferred.decode referred space
    simp only
    split
    · exact decoded _ _
    · exact (decoded _ _).addTarget _

theorem explore_callsReferred (fuel : Nat) (stage : Stage)
    (referred : stage.known.CallsReferred) :
    (explore space architecture limits start fuel stage.current
      stage.known).CallsReferred := by
  induction fuel generalizing stage with
  | zero => exact referred
  | succ fuel ih =>
    rcases explore_turn space architecture start limits stage with
      ⟨-, -, same⟩ | same | ⟨next, step, same⟩
    · rw [same]
      exact referred
    · rw [same]
      exact referred
    · rw [same]
      exact ih next (step.callsReferred referred)

end Exploration

/-- The addresses in the blocks of a function. -/
def Function.blockRanges (f : Function) : List AddressRange :=
  f.blocks.map fun b => ⟨b.start, b.stop⟩

namespace FunctionTable

theorem mem_callers {t : FunctionTable} {target site : Word} :
    site ∈ t.callers target ↔
      ∃ a f, t.functions.get? a = some f ∧ (site, target) ∈ f.calls := by
  simp only [callers, calls, all, mem_sortedSet, List.mem_map, List.mem_filter, List.mem_flatMap,
    Table.mem_values_iff, beq_iff_eq]
  constructor
  · rintro ⟨⟨_, _⟩, ⟨⟨f, ⟨a, held⟩, member⟩, rfl⟩, rfl⟩
    exact ⟨a, f, held, member⟩
  · rintro ⟨a, f, held, member⟩
    exact ⟨(site, target), ⟨⟨f, ⟨a, held⟩, member⟩, rfl⟩, rfl⟩

end FunctionTable

namespace Metadata

variable {m : Metadata}

/-- The references are left that are a user's or begin in no block of a function. -/
theorem get?_clearBlocks (m : Metadata) (f : Function) (key : ReferenceKey) :
    (m.renewReferences f.blockRanges []).outgoing.get? key =
      if m.outgoing.get? key = some true ∧ f.blocks.any (·.contains key.near) = true then none
      else m.outgoing.get? key := by
  have inside : f.blockRanges.any (·.contains key.near) =
      f.blocks.any (·.contains key.near) := List.any_map
  rw [get?_renewReferences, inside]
  rcases m.outgoing.get? key with _ | _ | _ <;> simp

end Metadata

namespace Space

variable {s : Space} {a : Word} {auto : Bool} {f : Function}

theorem discovery_calls (s : Space) (architecture : Option Architecture) (limits : ExploreLimits)
    (start : Word) :
    ∀ call ∈ (s.discovery architecture limits start).calls,
      ⟨call.1, call.2, .code⟩ ∈ (s.discovery architecture limits start).references := by
  cases architecture with
  | none => exact fun call member => nomatch member
  | some architecture =>
    have referred := @Exploration.explore_callsReferred s architecture limits start
      Discovery.exploreFuel ⟨none, .ofStart start, []⟩ fun call member => nomatch member
    unfold discovery Discovery.ofStart
    simp only
    split
    · exact fun call member => nomatch member
    · exact referred

theorem removeFunction_settles (held : s.functions.functions.get? a = some f)
    (own : f.auto = auto) :
    (removeFunction a auto).Settles s true (noted (!auto) (.function a true false)
      { s with
        functions := { s.functions with
          functions := s.functions.functions.erase a
          queue := s.functions.queue.erase a }
        metadata := s.metadata.renewReferences f.blockRanges [] }) := by
  unfold removeFunction
  simp only [Op.read_bind_settles, held, own, bne_self_eq_false, Bool.false_eq_true, if_false,
    editFunctions, Op.modify_bind_settles]
  exact Op.modify_bind_settles.2 (recordIf_bind_settles.2 (emit_pure_settles _ true _))

/-- With a function go the automatic references that begin in its blocks, and no others. -/
structure Removal (s : Space) (a : Word) (f : Function) (after : Space) : Prop where
  functions : after.functions.functions = s.functions.functions.erase a
  outgoing : ∀ key, after.metadata.outgoing.get? key =
    if s.metadata.outgoing.get? key = some true ∧ f.blocks.any (·.contains key.near) = true
    then none else s.metadata.outgoing.get? key
  mirrors : (∀ key, s.metadata.Mirrors key) → ∀ key, after.metadata.Mirrors key

theorem removeFunction_removes (held : s.functions.functions.get? a = some f)
    (own : f.auto = auto) :
    ∃ after, ((removeFunction a auto) s).collect.2 = (true, after) ∧ s.Removal a f after := by
  have settles := removeFunction_settles held own
  have metadata : ((removeFunction a auto) s).collect.2.2.metadata =
      s.metadata.renewReferences f.blockRanges [] := settles.shows fun _ => rfl
  have table : ((removeFunction a auto) s).collect.2.2.functions = _ := settles.shows fun _ => rfl
  refine ⟨_, Prod.ext settles.1 rfl, ?_⟩
  constructor
  case functions => exact congrArg (·.functions) table
  case outgoing =>
    rw [metadata]
    exact s.metadata.get?_clearBlocks f
  case mirrors =>
    rw [metadata]
    exact fun mirrors => Metadata.renewReferences_indexed mirrors _ _

/-- The functions are as they were found, and what they refer to is referred to. What a user referred
to in `m` still counts as the user's. -/
structure Referred (found : Word → Discovery) (m : Metadata) (s : Space) : Prop where
  calls : ∀ {x f}, s.functions.functions.get? x = some f → f.calls = (found x).calls
  noted : ∀ x, ∀ call ∈ (found x).calls, ⟨call.1, call.2, .code⟩ ∈ (found x).references
  outgoing : ∀ {x}, s.functions.functions.contains x = true → ∀ key ∈ (found x).references,
    s.metadata.outgoing.get? key =
      if m.outgoing.get? key = some false then some false else some true

/-- Where functions that share a place agree on the references there, the analysis of all functions
leaves those that were found. -/
theorem reanalyzed_referred {before : Space} (queued : ∀ x,
      before.functions.queue.contains x = true → before.functions.functions.contains x = true)
    (free : before.scheduler.held = false) (alive : before.scheduler.stopped = false) (fuel : Nat)
    (agree : ∀ x y, (before.reanalyzed (fuel + 1)).functions.functions.contains x = true →
      (before.reanalyzed (fuel + 1)).functions.functions.contains y = true →
      ∀ key ∈ (before.discovery before.architecture before.exploreLimits x).references,
        (before.discovery before.architecture before.exploreLimits y).concerns key = true →
        key ∈ (before.discovery before.architecture before.exploreLimits y).references) :
    Referred (before.discovery before.architecture before.exploreLimits) before.metadata
      (before.reanalyzed (fuel + 1)) := by
  obtain ⟨worked, order, progress, all, -, functions, outgoing⟩ :=
    reanalyzed_progress queued free alive fuel
  simp only [functions] at agree
  constructor
  case calls =>
    -- Every function was in the queue, so what is known of it was learned in this run.
    intro x f held
    rw [functions] at held
    have member : x ∈ order := (all x).2 ((Table.contains_iff _ _).2 ⟨f, held⟩)
    obtain ⟨g, learned⟩ := progress.learned x member
    rw [learned] at held
    cases held
    rfl
  case noted => exact discovery_calls before before.architecture before.exploreLimits
  case outgoing =>
    intro x known key mine
    rw [functions] at known
    rw [outgoing, progress.referred]
    exact before.metadata.get?_foldl_refer_of_agree (fun y here y' here' =>
      agree y y' ((all y).1 here) ((all y').1 here') key) ((all x).2 known) mine

section Removed

variable {found : Word → Discovery} {m : Metadata} {after : Space}

theorem Removal.get?_of_get? (removal : s.Removal a f after) {x : Word} {g : Function}
    (still : after.functions.functions.get? x = some g) :
    s.functions.functions.get? x = some g := by
  rw [removal.functions] at still
  exact (Table.get?_erase_eq_some_iff.1 still).2

theorem Referred.removed (referred : Referred found m s) (removal : s.Removal a f after) {x : Word}
    (still : after.functions.functions.contains x = true) {key : ReferenceKey}
    (mine : key ∈ (found x).references) :
    (after.metadata.outgoing.get? key).isSome = true ↔
      m.outgoing.get? key = some false ∨ f.blocks.any (·.contains key.near) = false := by
  obtain ⟨g, here⟩ := (Table.contains_iff _ _).1 still
  have known := (Table.contains_iff _ _).2 ⟨g, removal.get?_of_get? here⟩
  rw [removal.outgoing, referred.outgoing known key mine]
  by_cases user : m.outgoing.get? key = some false <;>
    cases f.blocks.any (·.contains key.near) <;> simp [user]

theorem Referred.removed_callers (referred : Referred found m s) (removal : s.Removal a f after)
    {target site : Word} (calls : site ∈ after.functions.callers target) :
    (after.metadata.outgoing.get? ⟨site, target, .code⟩).isSome = true ↔
      m.outgoing.get? ⟨site, target, .code⟩ = some false ∨
        f.blocks.any (·.contains site) = false := by
  obtain ⟨x, g, still, call⟩ := FunctionTable.mem_callers.1 calls
  rw [referred.calls (removal.get?_of_get? still)] at call
  exact referred.removed removal ((Table.contains_iff _ _).2 ⟨g, still⟩)
    (referred.noted x (site, target) call)

end Removed

/-- A function is removed after all were analysed. Where functions that share a place had agreed on
the references there, what another function was found to refer to is still referred to, and so is
what it calls, exactly if the reference is a user's or begins in no block of the function that is
gone. -/
theorem removed_function_references {before : Space} (queued : ∀ x,
      before.functions.queue.contains x = true → before.functions.functions.contains x = true)
    (free : before.scheduler.held = false) (alive : before.scheduler.stopped = false) (fuel : Nat)
    (agree : ∀ x y, (before.reanalyzed (fuel + 1)).functions.functions.contains x = true →
      (before.reanalyzed (fuel + 1)).functions.functions.contains y = true →
      ∀ key ∈ (before.discovery before.architecture before.exploreLimits x).references,
        (before.discovery before.architecture before.exploreLimits y).concerns key = true →
        key ∈ (before.discovery before.architecture before.exploreLimits y).references)
    (held : (before.reanalyzed (fuel + 1)).functions.functions.get? a = some f)
    (own : f.auto = auto) :
    ∃ after, ((removeFunction a auto) (before.reanalyzed (fuel + 1))).collect.2 = (true, after) ∧
      (before.reanalyzed (fuel + 1)).Removal a f after ∧
      (∀ x, after.functions.functions.contains x = true →
        ∀ key ∈ (before.discovery before.architecture before.exploreLimits x).references,
          ((after.metadata.outgoing.get? key).isSome = true ↔
            before.metadata.outgoing.get? key = some false ∨
              f.blocks.any (·.contains key.near) = false)) ∧
      ∀ target, ∀ site ∈ after.functions.callers target,
        ((after.metadata.outgoing.get? ⟨site, target, .code⟩).isSome = true ↔
          before.metadata.outgoing.get? ⟨site, target, .code⟩ = some false ∨
            f.blocks.any (·.contains site) = false) := by
  have referred := reanalyzed_referred queued free alive fuel agree
  obtain ⟨after, ran, removal⟩ := removeFunction_removes held own
  refine ⟨after, ran, removal, ?_, ?_⟩
  · intro x still key mine
    exact referred.removed removal still mine
  · intro target site calls
    exact referred.removed_callers removal calls

/-- Two functions call a third one. -/
def callersSpace : Space := codeSpace 0 [0xd, 8, 0, 1, 0xd, 8, 0, 1, 1] [0, 4]

theorem one_caller_removed :
    ∃ after, ((removeFunction 0 true) (callersSpace.reanalyzed 1)).collect.2 = (true, after) ∧
      after.functions.callers 8 = [4] ∧
      (after.metadata.outgoing.get? ⟨4, 8, .code⟩).isSome = true ∧
      after.metadata.outgoing.get? ⟨0, 8, .code⟩ = none := by
  obtain ⟨held, keys, computed⟩ : (callersSpace.reanalyzed 1).functions.functions.get? 0 =
        some ⟨0, "sub_0", true, [⟨0, 4, []⟩], false, [(0, 8)]⟩ ∧
      (callersSpace.reanalyzed 1).functions.functions.keys = [0, 4, 8] ∧
      ((removeFunction 0 true) (callersSpace.reanalyzed 1)).collect.2.2.functions.callers 8 =
        [4] := by
    decide +kernel
  have agreed {x y : Word} (first : x ∈ [0, 4, 8]) (second : y ∈ [0, 4, 8]) :
      ∀ key ∈ (callersSpace.discovery callersSpace.architecture
        callersSpace.exploreLimits x).references,
      (callersSpace.discovery callersSpace.architecture
        callersSpace.exploreLimits y).concerns key = true →
      key ∈ (callersSpace.discovery callersSpace.architecture
        callersSpace.exploreLimits y).references := by
    simp only [List.mem_cons, List.not_mem_nil, or_false] at first second
    rcases first with rfl | rfl | rfl <;> rcases second with rfl | rfl | rfl <;> decide +kernel
  have queued (x : Word) (waiting : callersSpace.functions.queue.contains x = true) :
      callersSpace.functions.functions.contains x = true :=
    codeSpace_queued 0 [0xd, 8, 0, 1, 0xd, 8, 0, 1, 1] [0, 4] x waiting
  obtain ⟨after, ran, removal, -, sites⟩ := removed_function_references queued rfl rfl 0
    (fun x y first second => agreed (keys ▸ (Table.mem_keys_iff_contains _ x).2 first)
      (keys ▸ (Table.mem_keys_iff_contains _ y).2 second)) held (rfl : true = true)
  have callers : after.functions.callers 8 = [4] := by
    rwa [ran] at computed
  refine ⟨after, ran, callers, ?_, ?_⟩
  · exact (sites 8 4 (callers ▸ List.mem_singleton_self 4)).2 (.inr rfl)
  · exact (removal.outgoing ⟨0, 8, .code⟩).trans (if_pos (by decide +kernel))

/-- A function runs into the start of another one, which calls a third. -/
def sharedCallSpace : Space :=
  emptySpace.afterwards [.addSegment ⟨0, ⟨0, 4⟩, 0, 4, .ofBits 7, false, []⟩, .write 0 [0, 4, 0, 1],
    .setArchitecture (some Toy.little), .addFunction 0, .addFunction 1, .reanalyze, .runRequested 1]

theorem sharedCallSpace_reachable : Reachable sharedCallSpace :=
  afterwards_reachable emptySpace_reachable (by decide +kernel)

/-- The second function still calls the third one, but the reference went with the first. -/
theorem shared_call_lost :
    Reachable sharedCallSpace ∧ sharedCallSpace.functions.queue = .empty ∧
      sharedCallSpace.metadata.outgoing.get? ⟨1, 3, .code⟩ = some true ∧
      let removed := ((removeFunction 0 true) sharedCallSpace).collect.2
      removed.1 = true ∧ removed.2.functions.functions.contains 1 = true ∧
        removed.2.functions.callers 3 = [1] ∧
        removed.2.metadata.outgoing.get? ⟨1, 3, .code⟩ = none :=
  ⟨sharedCallSpace_reachable, by decide +kernel⟩

end Space

end BinaryAtlas
