import BinaryAtlas.Analysis.Pass
import BinaryAtlas.Proofs.Space.Filing
import BinaryAtlas.Proofs.Space.Keeping

/-!
Analysis finds functions, references and strings, but leaves all that a user made and all that a
snapshot would hold.
-/

set_option autoImplicit false

namespace BinaryAtlas

namespace FunctionTable

variable {t : FunctionTable} {a : Word}

/-- A function in place of one that is as much the user's and begins at the same address. -/
theorem userStarts_insert {f g : Function} (held : t.functions.get? a = some f)
    (auto : g.auto = f.auto) (start : g.start = f.start) :
    userStarts { t with functions := t.functions.insert a g } = t.userStarts := by
  apply Table.ext_get?
  intro key
  rw [get?_userStarts, get?_userStarts]
  show Option.map _ (Option.filter _ ((t.functions.insert a g).get? key)) = _
  rw [Table.get?_insert]
  by_cases here : key = a
  · subst here
    simp [held, auto, start, Option.filter]
  · simp [here]

theorem userStarts_add (t : FunctionTable) (a : Word) :
    (t.add a true).1.userStarts = t.userStarts := by
  apply Table.ext_get?
  intro key
  have added := get?_addAll t [a] true key
  rw [get?_userStarts, get?_userStarts]
  show Option.map _ (Option.filter _ ((t.addAll [a] true).functions.get? key)) = _
  rw [added]
  cases t.functions.get? key with
  | some f => rfl
  | none =>
    simp only [Option.none_or]
    split <;> rfl

theorem entryPoints_add (t : FunctionTable) (a : Word) (auto : Bool) :
    (t.add a auto).1.entryPoints = t.entryPoints := by
  unfold add
  split <;> rfl

end FunctionTable

namespace Metadata

variable {m : Metadata}

theorem userRecords_of_outgoing {outgoing : Table ReferenceKey Bool}
    {incoming : Table ReferenceKey Unit}
    (same : ∀ key, (outgoing.get? key).filter (!·) = (m.outgoing.get? key).filter (!·)) :
    userRecords { m with outgoing := outgoing, incoming := incoming } = m.userRecords := by
  have kept : outgoing.filter (fun _ auto => !auto) = m.outgoing.filter (fun _ auto => !auto) := by
    apply Table.ext_get?
    intro key
    rw [Table.get?_filter, Table.get?_filter]
    exact same key
  simp only [userRecords, kept]

theorem userRecords_removeReference {key : ReferenceKey} (auto : m.outgoing.get? key ≠ some false) :
    (m.removeReference key).userRecords = m.userRecords := by
  refine userRecords_of_outgoing fun query => ?_
  rw [Table.get?_erase]
  by_cases here : query = key
  · subst here
    cases held : m.outgoing.get? query with
    | none => simp
    | some value =>
      cases value with
      | false => exact absurd held auto
      | true => rw [if_pos rfl]; rfl
  · simp [here]

theorem userRecords_removeReferences {keys : List ReferenceKey}
    (auto : ∀ key ∈ keys, m.outgoing.get? key ≠ some false) :
    (keys.foldl (·.removeReference) m).userRecords = m.userRecords := by
  induction keys generalizing m with
  | nil => rfl
  | cons key rest ih =>
    rw [List.foldl_cons, ih, userRecords_removeReference (auto key List.mem_cons_self)]
    intro other member held
    exact auto other (List.mem_cons_of_mem key member) (Table.get?_erase_eq_some_iff.1 held).2

/-- A reference that is found again stays as it is; a new one is automatic. -/
theorem userRecords_addReferences (keys : List ReferenceKey) :
    (keys.foldl (fun m key => m.addReference key ((m.outgoing.get? key).getD true)) m).userRecords =
      m.userRecords := by
  induction keys generalizing m with
  | nil => rfl
  | cons key rest ih =>
    rw [List.foldl_cons, ih]
    refine userRecords_of_outgoing fun query => ?_
    rw [Table.get?_insert]
    by_cases here : query = key
    · subst here
      cases m.outgoing.get? query <;> simp
    · simp [here]

end Metadata

namespace Space

open Op

/-- What a snapshot holds of a space, what reading it goes through, and what can be undone. -/
def lasting (s : Space) :=
  (s.backend, s.storage, s.map, s.architecture, s.config, s.metadata.userRecords,
    s.functions.userStarts, s.functions.entryPoints, s.undoLog)

theorem editScheduler_lasting (f : Scheduler → Scheduler) : Keeps lasting (editScheduler f) :=
  keeps_modify fun _ => rfl

theorem tellQuietly_lasting (events : List ChangeEvent) : Keeps lasting (tellQuietly events) :=
  keeps_forEach (keeps_tell fun _ _ => rfl) events

theorem editFunctions_lasting {f : FunctionTable → FunctionTable}
    (functions : ∀ t, (f t).userStarts = t.userStarts)
    (entryPoints : ∀ t, (f t).entryPoints = t.entryPoints) : Keeps lasting (editFunctions f) :=
  keeps_modify fun s => by simp only [lasting, functions, entryPoints]

theorem enqueueAll_lasting (starts : List Word) :
    Keeps lasting (editFunctions (·.enqueueAll starts)) := by
  refine editFunctions_lasting (fun t => ?_) fun t => ?_
  · rw [FunctionTable.userStarts, FunctionTable.enqueueAll_functions]
    rfl
  · unfold FunctionTable.enqueueAll
    induction starts generalizing t with
    | nil => rfl
    | cons start rest ih => exact ih (t.enqueue start)

theorem addFoundFunction_lasting (a : Word) : Keeps lasting (addFoundFunction a) := by
  refine keeps_bind (keeps_bind (keeps_read _) fun valid => ?_) fun new => ?_
  · split
    · exact keeps_pure false
    · refine keeps_bind (fun s => ?_) fun new => ?_
      · show lasting { s with functions := (s.functions.add a true).1 } = lasting s
        simp only [lasting, FunctionTable.userStarts_add, FunctionTable.entryPoints_add]
      · split
        · exact keeps_bind (editScheduler_lasting _) fun _ => keeps_pure new
        · exact keeps_pure new
  · split
    · exact tellQuietly_lasting _
    · exact keeps_pure ()

theorem updateFunction_lasting (found : Discovery) : Keeps lasting (updateFunction found) := by
  intro s
  unfold updateFunction
  rw [collect_read_bind]
  cases held : s.functions.functions.get? found.start with
  | none => rfl
  | some f =>
    simp only
    rw [collect_bind]
    have told (changed : Bool) : Keeps lasting (do
        if changed then tellQuietly [.functionUpdated found.start]
        pure true) := by
      cases changed with
      | false => exact keeps_pure true
      | true => exact keeps_bind (tellQuietly_lasting _) fun _ => keeps_pure true
    refine (told _ _).trans ?_
    have starts := FunctionTable.userStarts_insert (t := s.functions) (g := { f with
      blocks := found.blocks, calls := found.calls, skipped := found.skipped }) held rfl rfl
    simp only [lasting, ← starts]
    rfl

theorem replaceReferences_lasting (ranges : List AddressRange) (found : List ReferenceKey) :
    Keeps lasting (replaceReferences ranges found) := by
  refine keeps_modify fun s => ?_
  have kept : ∀ key ∈ ranges.flatMap fun r => (s.metadata.outgoing.entries.filter fun e =>
      r.start ≤ e.1.near && e.1.near < r.stop && e.2).map (·.1),
      s.metadata.outgoing.get? key ≠ some false := by
    intro key member held
    obtain ⟨range, -, inside⟩ := List.mem_flatMap.1 member
    obtain ⟨⟨_, auto⟩, entry, rfl⟩ := List.mem_map.1 inside
    obtain ⟨here, wanted⟩ := List.mem_filter.1 entry
    rw [Table.get?_eq_some_iff.2 here] at held
    cases held
    simp at wanted
  simp only [lasting, Metadata.userRecords_addReferences,
    Metadata.userRecords_removeReferences kept]

theorem applyDiscovery_lasting (found : Discovery) : Keeps lasting (applyDiscovery found) := by
  refine keeps_bind (updateFunction_lasting found) fun known => ?_
  cases known with
  | false => exact keeps_pure ()
  | true =>
    exact keeps_bind (replaceReferences_lasting _ _) fun _ =>
      keeps_forEach addFoundFunction_lasting _

theorem analyzeQueue_lasting (architecture : Option Architecture) (limits : ExploreLimits)
    (fuel : Nat) : Keeps lasting (analyzeQueue architecture limits fuel) := by
  induction fuel with
  | zero => exact keeps_pure false
  | succ fuel ih =>
    refine keeps_bind (fun _ => rfl) fun batch => ?_
    split
    · exact keeps_pure true
    · refine keeps_bind (keeps_read _) fun aborted => ?_
      split
      · exact keeps_bind (enqueueAll_lasting batch) fun _ => keeps_pure false
      · refine keeps_bind (editScheduler_lasting _) fun _ => ?_
        refine keeps_bind (keeps_bind (keeps_read _) fun _ =>
          keeps_bind (editScheduler_lasting _) fun _ => keeps_pure _) fun found => ?_
        refine keeps_bind (editScheduler_lasting _) fun _ => keeps_bind ?_ fun _ => ih
        exact keeps_forEach (fun discovery => keeps_bind (applyDiscovery_lasting discovery)
          fun _ => editScheduler_lasting _) found

theorem findStrings_lasting (segments : List Segment) : Keeps lasting (findStrings segments) := by
  refine keeps_forEach (fun segment => keeps_bind (keeps_read _) fun aborted => ?_) segments
  split
  · exact keeps_bind (keeps_read _) fun found => keeps_bind (keeps_read _) fun _ =>
      keeps_bind (keeps_modify fun _ => rfl) fun _ => tellQuietly_lasting _
  · exact keeps_pure ()

theorem analysisPass_lasting : Keeps lasting analysisPass := by
  refine keeps_bind (keeps_read _) fun limits => keeps_bind (keeps_read _) fun architecture =>
    keeps_bind (analyzeQueue_lasting architecture limits batchFuel) fun finished => ?_
  split
  · refine keeps_bind (keeps_read _) fun aborted => ?_
    split
    · exact keeps_bind (editScheduler_lasting _) fun _ => keeps_bind (keeps_read _)
        fun segments => findStrings_lasting segments
    · exact keeps_pure ()
  · exact keeps_pure ()

theorem complete_lasting (events : List Nat) : Keeps lasting (complete events) := by
  refine keeps_forEach (fun event => keeps_bind (fun _ => rfl) fun due => ?_) events
  cases due with
  | false => exact keeps_pure ()
  | true => exact keeps_notify _

/-- However often it runs, analysis leaves what lasts. -/
theorem runRequested_lasting (fuel : Nat) : Keeps lasting (runRequested fuel) := by
  induction fuel with
  | zero => exact keeps_pure ()
  | succ fuel ih =>
    refine keeps_bind (keeps_read _) fun ready => ?_
    cases ready with
    | false => exact keeps_pure ()
    | true =>
      refine keeps_bind (keeps_bind (editScheduler_lasting _) fun _ => ?_) fun _ => ih
      exact keeps_bind analysisPass_lasting fun _ => keeps_bind (fun _ => rfl) fun due =>
        keeps_bind (complete_lasting due) fun _ => editScheduler_lasting _

end Space

end BinaryAtlas
