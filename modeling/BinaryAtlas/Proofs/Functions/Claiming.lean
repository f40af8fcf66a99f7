import BinaryAtlas.Proofs.Functions.Removing

/-!
Taking back what a user did to get a function of one's own. The log only notes that there is one
now, and its replay removes it: so a function that analysis had found is gone as well.
-/

set_option autoImplicit false

namespace BinaryAtlas

namespace FunctionTable

variable (t : FunctionTable) (a : Word)

/-- The function at an address, or else a new one, as the user's. -/
def claimed : Function :=
  { (t.functions.get? a).getD (.unexplored a false) with auto := false }

/-- The table when a user has claimed an address for a function. A new one is queued. -/
def claim : FunctionTable :=
  { t with
    functions := t.functions.insert a (t.claimed a)
    queue := if t.functions.contains a then t.queue else t.queue.insert a () }

theorem claim_held {f : Function} (held : t.functions.get? a = some f) :
    t.claim a = { t with functions := t.functions.insert a { f with auto := false } } := by
  simp [claim, claimed, held, Table.contains]

theorem claim_new (new : t.functions.get? a = none) : t.claim a = (t.add a false).1 := by
  simp [claim, claimed, new, Table.contains, add, enqueue, Function.unexplored]

theorem claimed_blocks (p : BasicBlock → Bool) :
    (t.claimed a).blocks.any p = (t.functions.get? a).any fun f => f.blocks.any p := by
  cases held : t.functions.get? a with
  | none => simp [claimed, held, Function.unexplored]
  | some f => simp [claimed, held]

theorem erase_claim : (t.claim a).functions.erase a = t.functions.erase a :=
  Table.erase_insert _ _ _

theorem erase_eq_self_iff {t : FunctionTable} {a : Word} :
    t.functions.erase a = t.functions ↔ t.functions.get? a = none := by
  constructor
  · intro same
    rw [← same]
    exact Table.get?_erase_self _ _
  · exact Table.alter_same

end FunctionTable

namespace Space

variable {s : Space} {a : Word}

/-- Whether a user can get a function at an address: nobody has one there already. -/
def isClaimable (s : Space) (a : Word) : Bool :=
  s.isValid a && (s.functions.functions.get? a).all (·.auto)

theorem createUserFunction_settles (s : Space) (a : Word) :
    (createUserFunction a).Settles s (s.isClaimable a)
      (if s.isClaimable a then
        noted true (.function a false true) { s with functions := s.functions.claim a }
      else s) := by
  unfold createUserFunction
  cases valid : s.isValid a with
  | false => simp [isClaimable, valid]
  | true =>
    simp only [Op.read_bind_settles, valid, Bool.not_true, Bool.false_eq_true, if_false]
    cases held : s.functions.functions.get? a with
    | none =>
      have claimable : s.isClaimable a = true := by simp [isClaimable, valid, held]
      rw [claimable, if_pos rfl, s.functions.claim_new a held]
      simp only [editFunctions, editScheduler, Op.modify_bind_settles, record_bind_settles]
      exact (emit_pure_settles _ true _).alike rfl
    | some f =>
      cases own : f.auto with
      | false => simp [isClaimable, held, own]
      | true =>
        have claimable : s.isClaimable a = true := by simp [isClaimable, valid, held, own]
        rw [claimable, if_pos rfl, s.functions.claim_held a held]
        simp only [own, Bool.not_true, Bool.false_eq_true, if_false, editFunctions, editScheduler,
          Op.modify_bind_settles, record_bind_settles]
        exact (emit_pure_settles _ true _).alike rfl

/-- A user gets a function, and takes that back: whatever there was at its address is gone, and the
automatic references from its blocks with it. Only where there was no function all is as before. -/
theorem created_function_taken_back (outside : s.undoLog.inGroup = false)
    (recording : s.undoLog.replaying = false)
    (created : ((createUserFunction a) s).collect.2.1 = true) :
    let back := ((undo) ((createUserFunction a) s).collect.2.2).collect.2
    back.1 = true ∧ back.2.functions.functions = s.functions.functions.erase a ∧
      (∀ key, back.2.metadata.outgoing.get? key =
        if s.metadata.outgoing.get? key = some true ∧
          (s.functions.functions.get? a).any (fun f => f.blocks.any (·.contains key.near)) = true
        then none else s.metadata.outgoing.get? key) ∧
      (back.2.functions.functions = s.functions.functions ↔
        s.functions.functions.get? a = none) ∧
      (s.functions.functions.get? a = none → back.2.metadata = s.metadata) := by
  intro back
  have settles := createUserFunction_settles s a
  have claimable : s.isClaimable a = true := settles.1.symm.trans created
  rw [claimable, if_pos rfl] at settles
  have log := settles.undoLog.trans (UndoLog.record_outside recording outside)
  have functions : ((createUserFunction a) s).collect.2.2.functions = s.functions.claim a :=
    settles.shows fun _ => rfl
  have metadata : ((createUserFunction a) s).collect.2.2.metadata = s.metadata :=
    settles.shows fun _ => rfl
  have held : ((createUserFunction a) s).collect.2.2.functions.functions.get? a =
      some (s.functions.claimed a) := by
    rw [functions]
    exact Table.get?_insert_self _ _ _
  -- The function is the user's by now, so the replay takes it out altogether.
  have replays := (removeFunction_settles (s := { ((createUserFunction a) s).collect.2.2 with
    undoLog := { s.undoLog with future := [], replaying := true } }) held rfl).discard
  obtain ⟨answer, gone⟩ := undo_latest_shows (fun s => s.functions.functions) (fun _ => rfl)
    (fun _ _ => rfl) outside log replays
  obtain ⟨-, cleared⟩ := undo_latest outside log replays
  have left : back.2.functions.functions = s.functions.functions.erase a := by
    refine gone.trans ?_
    show ((createUserFunction a) s).collect.2.2.functions.functions.erase a = _
    rw [functions, FunctionTable.erase_claim]
  have references : back.2.metadata =
      s.metadata.renewReferences (s.functions.claimed a).blockRanges [] := by
    refine cleared.trans ?_
    show ((createUserFunction a) s).collect.2.2.metadata.renewReferences _ _ = _
    rw [metadata]
  refine ⟨answer, left, fun key => ?_, ?_, fun new => ?_⟩
  · rw [references, Metadata.get?_clearBlocks, FunctionTable.claimed_blocks]
  · rw [left]
    exact FunctionTable.erase_eq_self_iff
  · rw [references, FunctionTable.claimed, new]
    rfl

theorem new_function_taken_back :
    let created := ((createUserFunction 2) loadingSpace).collect.2
    let back := ((undo) created.2).collect.2
    created.2.functions.functions.contains 2 = true ∧ back.1 = true ∧
      back.2.functions.functions = loadingSpace.functions.functions ∧
      back.2.metadata = loadingSpace.metadata := by
  have absent : loadingSpace.functions.functions.get? 2 = none := by decide +kernel
  obtain ⟨answer, -, -, same, unchanged⟩ := created_function_taken_back (s := loadingSpace) (a := 2)
    (by decide +kernel) (by decide +kernel) (by decide +kernel)
  exact ⟨by decide +kernel, answer, same.2 absent, unchanged absent⟩

/-- To claim a function that analysis had found, and to take that back, leaves none. -/
theorem analysed_function_lost :
    Reachable loadingSpace ∧ loadingSpace.undoLog.inGroup = false ∧
      (loadingSpace.functions.functions.get? 0).map (·.auto) = some true ∧
      loadingSpace.metadata.outgoing.get? ⟨0, 3, .data⟩ = some true ∧
      let created := ((createUserFunction 0) loadingSpace).collect.2
      let back := ((undo) created.2).collect.2
      created.1 = true ∧ back.1 = true ∧ back.2.functions.functions.get? 0 = none ∧
        back.2.metadata.outgoing.get? ⟨0, 3, .data⟩ = none :=
  ⟨loadingSpace_reachable, by decide +kernel⟩

end Space

end BinaryAtlas
