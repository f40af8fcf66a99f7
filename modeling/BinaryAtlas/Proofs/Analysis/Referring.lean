import BinaryAtlas.Proofs.Analysis.Closing
import Mathlib.Data.List.Induction

/-!
The references that a run of analysis leaves. Of the functions analysed that have to do with a
reference, the last one decides whether it stays.
-/

set_option autoImplicit false

namespace BinaryAtlas

namespace Discovery

/-- The function has the place of the reference in its blocks, or it was found to refer so. -/
def concerns (found : Discovery) (key : ReferenceKey) : Bool :=
  found.blocks.any (·.contains key.near) || decide (key ∈ found.references)

/-- Where the functions that have to do with a reference agree on it, the last one says that it is
there if any of them refers so. -/
theorem last_agrees {found : Word → Discovery} {order : List Word} {key : ReferenceKey}
    {before : Option Bool}
    (inside : before = some true → ∃ x ∈ order, (found x).concerns key = true)
    (agree : ∀ x ∈ order, ∀ y ∈ order, key ∈ (found x).references →
      (found y).concerns key = true → key ∈ (found y).references) :
    (match (order.filter fun x => (found x).concerns key).getLast? with
      | some x => if key ∈ (found x).references then some true else none
      | none => before) = some true ↔ ∃ x ∈ order, key ∈ (found x).references := by
  cases last : (order.filter fun x => (found x).concerns key).getLast? with
  | none =>
    have nobody (x : Word) (member : x ∈ order) : ¬ (found x).concerns key = true :=
      List.filter_eq_nil_iff.1 (List.getLast?_eq_none_iff.1 last) x member
    refine iff_of_false (fun there => ?_) fun ⟨x, member, mine⟩ => ?_
    · obtain ⟨x, member, concerned⟩ := inside there
      exact nobody x member concerned
    · exact nobody x member (by simp [concerns, mine])
  | some x =>
    obtain ⟨member, concerned⟩ := List.mem_filter.1 (List.mem_of_getLast? last)
    refine (Option.ite_none_right_eq_some.trans (and_iff_left rfl)).trans
      ⟨fun mine => ⟨x, member, mine⟩, fun ⟨y, member', mine⟩ => ?_⟩
    exact agree y member' x member mine concerned

end Discovery

namespace Metadata

variable (m : Metadata)

theorem get?_removeReferences (keys : List ReferenceKey) (query : ReferenceKey) :
    (keys.foldl (·.removeReference) m).outgoing.get? query =
      if query ∈ keys then none else m.outgoing.get? query := by
  induction keys generalizing m with
  | nil => simp
  | cons key rest ih =>
    rw [List.foldl_cons, ih, removeReference, Table.get?_erase]
    by_cases here : query = key <;> simp [here]

theorem get?_addReferences (keys : List ReferenceKey) (query : ReferenceKey) :
    (keys.foldl (fun m key => m.addReference key ((m.outgoing.get? key).getD true))
        m).outgoing.get? query =
      if query ∈ keys then some ((m.outgoing.get? query).getD true)
      else m.outgoing.get? query := by
  induction keys generalizing m with
  | nil => simp
  | cons key rest ih =>
    rw [List.foldl_cons, ih, addReference, Table.get?_insert]
    by_cases here : query = key <;> simp [here]

/-- A user's reference stays, what was found is there, and what else begins in the ranges is gone. -/
theorem get?_renewReferences (ranges : List AddressRange) (found : List ReferenceKey)
    (key : ReferenceKey) :
    (m.renewReferences ranges found).outgoing.get? key =
      if m.outgoing.get? key = some false then some false
      else if key ∈ found then some true
      else if ranges.any (·.contains key.near) then none
      else m.outgoing.get? key := by
  unfold renewReferences
  rw [get?_addReferences, get?_removeReferences]
  have stale :
      (key ∈ ranges.flatMap fun r =>
      (m.outgoing.entries.filter fun e =>
        r.start ≤ e.1.near && e.1.near < r.stop && e.2).map (·.1)) ↔
      ranges.any (·.contains key.near) = true ∧ m.outgoing.get? key = some true := by
    simp only [List.mem_flatMap, List.mem_map, List.mem_filter, Table.get?_eq_some_iff,
      List.any_eq_true, AddressRange.contains]
    constructor
    · rintro ⟨r, member, ⟨_, auto⟩, ⟨held, within⟩, rfl⟩
      simp only [Bool.and_eq_true] at within
      obtain ⟨within, rfl⟩ := within
      exact ⟨⟨r, member, by simpa using within⟩, held⟩
    · rintro ⟨⟨r, member, within⟩, held⟩
      exact ⟨r, member, (key, true), ⟨held, by simpa using within⟩, rfl⟩
  simp only [stale]
  by_cases mine : key ∈ found <;>
    by_cases inside : ranges.any (·.contains key.near) = true <;>
    rcases m.outgoing.get? key with _ | _ | _ <;> simp [mine, inside]

/-- One function has its say on a reference. -/
theorem get?_refer (found : Discovery) (key : ReferenceKey) :
    (m.refer found).outgoing.get? key =
      if m.outgoing.get? key = some false then some false
      else if key ∈ found.references then some true
      else if found.concerns key then none
      else m.outgoing.get? key := by
  have inside : (found.blocks.map fun b => (⟨b.start, b.stop⟩ : AddressRange)).any
      (·.contains key.near) = found.blocks.any (·.contains key.near) := List.any_map
  rw [refer, get?_renewReferences, inside]
  by_cases mine : key ∈ found.references <;> simp [Discovery.concerns, mine]

/-- Of the functions that have to do with a reference, the last one decides. -/
theorem get?_foldl_refer (found : Word → Discovery) (order : List Word) (key : ReferenceKey) :
    (order.foldl (fun m x => m.refer (found x)) m).outgoing.get? key =
      if m.outgoing.get? key = some false then some false
      else match (order.filter fun x => (found x).concerns key).getLast? with
        | some x => if key ∈ (found x).references then some true else none
        | none => m.outgoing.get? key := by
  induction order using List.reverseRecOn with
  | nil => simp
  | append_singleton order x ih =>
    rw [List.foldl_append, List.foldl_cons, List.foldl_nil, get?_refer, ih]
    by_cases user : m.outgoing.get? key = some false
    · simp [user]
    · simp only [if_neg user, List.filter_append]
      -- What the earlier ones left is no user's.
      rw [if_neg (by split <;> [split <;> simp; exact user])]
      cases concerned : (found x).concerns key with
      | true => simp [List.filter, concerned]
      | false =>
        have other : key ∉ (found x).references := fun mine => by
          simp [Discovery.concerns, mine] at concerned
        simp [List.filter, concerned, other]

/-- A reference that a function was found to have is there in the end, if those after it agree. -/
theorem get?_foldl_refer_of_agree {found : Word → Discovery} {order : List Word}
    {key : ReferenceKey} (agree : ∀ x ∈ order, ∀ y ∈ order, key ∈ (found x).references →
      (found y).concerns key = true → key ∈ (found y).references)
    {x : Word} (member : x ∈ order) (mine : key ∈ (found x).references) :
    (order.foldl (fun m x => m.refer (found x)) m).outgoing.get? key =
      if m.outgoing.get? key = some false then some false else some true := by
  have inside : m.outgoing.get? key = some true → ∃ x ∈ order, (found x).concerns key = true :=
    fun _ => ⟨x, member, by simp [Discovery.concerns, mine]⟩
  rw [get?_foldl_refer, (Discovery.last_agrees inside agree).2 ⟨x, member, mine⟩]

end Metadata

namespace Scheduler

variable (s : Scheduler)

def submitted (starts : List Word) : Scheduler := starts.foldl noteSubmit s

theorem submitted_eq (starts : List Word) :
    ∃ submits, s.submitted starts = { s with submits := submits } := by
  unfold submitted
  induction starts generalizing s with
  | nil => exact ⟨s.submits, rfl⟩
  | cons start rest ih => exact ih (s.noteSubmit start)

theorem requested_finishPass : s.finishPass.1.requested = s.requested := by
  unfold finishPass
  simp only
  split <;> rfl

theorem requested_settle : s.settle.requested = s.requested := by
  unfold settle
  split <;> rfl

end Scheduler

namespace Space

open Op

/-- A space that has been analysed anew, as often as it is asked for until then. -/
def reanalyzed (s : Space) (fuel : Nat) : Space :=
  ((do
    reanalyze
    runRequested fuel : Op Unit) s).collect.2.2

/-- All functions are queued, and a run is asked for. -/
def summoned (s : Space) : Space :=
  let starts := s.functions.functions.keys
  { s with
    functions := s.functions.enqueueAll starts
    scheduler := (s.scheduler.submitted starts).schedule }

theorem collect_submits (starts : List Word) (s : Space) :
    ((forEach (fun start => editScheduler (·.noteSubmit start)) starts) s).collect.2.2 =
      { s with scheduler := s.scheduler.submitted starts } := by
  rw [collect_forEach]
  unfold Scheduler.submitted
  induction starts generalizing s with
  | nil => rfl
  | cons start rest ih => exact ih { s with scheduler := s.scheduler.noteSubmit start }

theorem collect_reanalyze {s : Space} (free : s.scheduler.held = false) :
    (reanalyze s).collect.2.2 = s.summoned := by
  obtain ⟨submits, same⟩ := s.scheduler.submitted_eq s.functions.functions.keys
  unfold reanalyze
  rw [collect_read_bind, collect_bind, collect_bind, collect_submits]
  unfold requestAnalysis
  rw [collect_read_bind]
  show ((if (!(s.scheduler.submitted s.functions.functions.keys).held) = true
    then _ else _ : Op Unit) _).collect.2.2 = _
  rw [show (s.scheduler.submitted s.functions.functions.keys).held = false by rw [same]; exact free]
  rfl

theorem isReady_summoned {s : Space} (free : s.scheduler.held = false)
    (alive : s.scheduler.stopped = false) : s.summoned.scheduler.isReady = true := by
  obtain ⟨submits, same⟩ := s.scheduler.submitted_eq s.functions.functions.keys
  simp [summoned, same, Scheduler.schedule, Scheduler.isReady, free, alive]

theorem contains_queue_enqueueAll (t : FunctionTable) (starts : List Word) (x : Word) :
    (t.enqueueAll starts).queue.contains x = (decide (x ∈ starts) || t.queue.contains x) := by
  unfold FunctionTable.enqueueAll
  induction starts generalizing t with
  | nil => simp
  | cons start rest ih =>
    rw [List.foldl_cons, ih, FunctionTable.enqueue, Table.contains_insert]
    by_cases here : x = start <;> simp [here]

/-- What a run leaves behind, and whether another one is asked for. -/
def findings (s : Space) := (s.functions, s.metadata, s.scheduler.requested)

theorem complete_findings (events : List Nat) : Keeps findings (complete events) := by
  refine keeps_forEach (fun event => keeps_bind (fun _ => rfl) fun due => ?_) events
  cases due with
  | false => exact keeps_pure ()
  | true => exact keeps_notify _

/-- Besides its pass a run does nothing to what is known. -/
theorem collect_analysisRun (s : Space) : findings (analysisRun s).collect.2.2 =
    findings (analysisPass { s with scheduler := s.scheduler.pickUp }).collect.2.2 := by
  unfold analysisRun
  rw [collect_editScheduler_bind, collect_bind]
  -- The findings pass unchanged through the end of the run.
  refine keeps_bind (fun s => ?_) (fun due => keeps_bind (complete_findings due) fun _ s => ?_) _
  · exact congrArg (fun requested => (s.functions, s.metadata, requested))
      s.scheduler.requested_finishPass
  · exact congrArg (fun requested => (s.functions, s.metadata, requested))
      s.scheduler.requested_settle

/-- A run that leaves no request behind is the only one. -/
theorem collect_runRequested {s : Space} (ready : s.scheduler.isReady = true)
    (last : (analysisRun s).collect.2.2.scheduler.requested = false) (fuel : Nat) :
    (runRequested (fuel + 1) s).collect.2.2 = (analysisRun s).collect.2.2 := by
  unfold runRequested
  rw [collect_read_bind, ready, if_pos rfl, collect_bind]
  cases fuel with
  | zero => rfl
  | succ fuel =>
    unfold runRequested
    rw [collect_read_bind]
    simp only [Scheduler.isReady, last, Bool.false_and, Bool.false_eq_true, if_false]
    rfl

/-- Analysis of all functions is the run that it asks for. -/
theorem reanalyzed_run {s : Space} (free : s.scheduler.held = false)
    (alive : s.scheduler.stopped = false)
    (last : (analysisRun s.summoned).collect.2.2.scheduler.requested = false) (fuel : Nat) :
    s.reanalyzed (fuel + 1) = (analysisRun s.summoned).collect.2.2 := by
  unfold reanalyzed
  rw [collect_bind, collect_reanalyze free,
    collect_runRequested (isReady_summoned free alive) last]

/-- The run that was asked for begins: every function is queued. -/
def resumed (s : Space) : Space :=
  { s.summoned with scheduler := s.summoned.scheduler.pickUp }

theorem contains_resumed (s : Space) (x : Word) :
    s.resumed.functions.functions.contains x = s.functions.functions.contains x := by
  simp only [resumed, summoned, FunctionTable.enqueueAll_functions]

theorem waiting_resumed {s : Space} (queued : ∀ x,
      s.functions.queue.contains x = true → s.functions.functions.contains x = true) (x : Word) :
    s.resumed.functions.queue.contains x = true ↔ s.functions.functions.contains x = true := by
  simp only [resumed, summoned, contains_queue_enqueueAll, Bool.or_eq_true, decide_eq_true_eq,
    Table.mem_keys_iff_contains]
  exact or_iff_left_of_imp (queued x)

theorem discovery_resumed (s : Space) :
    s.resumed.discovery s.architecture s.exploreLimits =
      s.discovery s.architecture s.exploreLimits := by
  have same : s.resumed.ground = s.ground := rfl
  funext x
  exact discovery_ground same ..

/-- When the queue has been worked off and no other run is asked for, what is known stays. -/
theorem reanalyzed_eq {s worked : Space} (free : s.scheduler.held = false)
    (alive : s.scheduler.stopped = false)
    (finished : ((analyzeQueue s.architecture s.exploreLimits batchFuel) s.resumed).collect.2 =
      (true, worked))
    (running : worked.scheduler.aborted = false) (last : worked.scheduler.requested = false)
    (fuel : Nat) :
    (s.reanalyzed (fuel + 1)).functions = worked.functions ∧
      (s.reanalyzed (fuel + 1)).metadata.outgoing = worked.metadata.outgoing := by
  have besides := collect_analysisPass (s := s.resumed) finished running
  have left := collect_analysisRun s.summoned
  simp only [besidesStrings, findings, Prod.mk.injEq] at besides left
  obtain ⟨-, functions, scheduler, outgoing, -⟩ := besides
  obtain ⟨functions_eq, metadata_eq, requested_eq⟩ := left
  have only : (analysisRun s.summoned).collect.2.2.scheduler.requested = false := by
    rw [requested_eq]
    exact (congrArg Scheduler.requested scheduler).trans
      ((Scheduler.requested_setPhase ..).trans last)
  rw [reanalyzed_run free alive only, functions_eq, metadata_eq]
  exact ⟨functions, outgoing⟩

/-- Analysis of all functions comes to its end with each of them analysed, those it added too. -/
theorem reanalyzed_progress {s : Space} (queued : ∀ x,
      s.functions.queue.contains x = true → s.functions.functions.contains x = true)
    (free : s.scheduler.held = false) (alive : s.scheduler.stopped = false) (fuel : Nat) :
    ∃ worked order, Progress (s.discovery s.architecture s.exploreLimits) s.resumed worked order [] ∧
      (∀ x, x ∈ order ↔ worked.functions.functions.contains x = true) ∧
      worked.functions.queue = .empty ∧
      (s.reanalyzed (fuel + 1)).functions = worked.functions ∧
      (s.reanalyzed (fuel + 1)).metadata.outgoing = worked.metadata.outgoing := by
  have known (x : Word) (waits : s.resumed.functions.queue.contains x = true) :
      s.resumed.functions.functions.contains x = true := by
    rw [contains_resumed]
    exact (waiting_resumed queued x).1 waits
  obtain ⟨ended, nothing, order, progress, -⟩ := analyzeQueue_finishes s.architecture
    s.exploreLimits (.start (s := s.resumed) rfl known) (fun x member => nomatch member) batchFuel
    (by decide)
  have left := reanalyzed_eq free alive (Prod.ext ended rfl) progress.running progress.requested
    fuel
  rw [discovery_resumed] at progress
  refine ⟨_, order, progress, fun x => ?_, nothing, left⟩
  -- What is known at the end was queued, or is new.
  have due := progress.due x
  rw [nothing, ← Bool.not_eq_true, waiting_resumed queued, contains_resumed] at due
  have stays := progress.stays x
  rw [contains_resumed] at stays
  simp only [List.append_nil, Table.contains, Table.get?_empty, Option.isSome_none,
    Bool.false_eq_true, or_false] at due stays ⊢
  constructor
  · intro member
    rcases due.1 member with before | ⟨now, -⟩
    · exact stays before
    · exact now
  · intro now
    by_cases before : (s.functions.functions.get? x).isSome = true
    · exact due.2 (.inl before)
    · exact due.2 (.inr ⟨now, before⟩)

theorem reanalyzed_refers {s : Space} (queued : ∀ x,
      s.functions.queue.contains x = true → s.functions.functions.contains x = true)
    (free : s.scheduler.held = false) (alive : s.scheduler.stopped = false) (fuel : Nat) :
    ∃ order : List Word, order.Nodup ∧
      (∀ x, x ∈ order ↔ (s.reanalyzed (fuel + 1)).functions.functions.contains x = true) ∧
      (s.reanalyzed (fuel + 1)).metadata.outgoing = (order.foldl
        (fun m x => m.refer (s.discovery s.architecture s.exploreLimits x)) s.metadata).outgoing ∧
      (s.reanalyzed (fuel + 1)).functions.queue = .empty := by
  obtain ⟨worked, order, progress, all, nothing, functions, outgoing⟩ :=
    reanalyzed_progress queued free alive fuel
  rw [functions, outgoing, progress.referred]
  exact ⟨order, by simpa using progress.once, all, rfl, nothing⟩

/-- After all functions were analysed anew, an automatic reference is there if the last function
that has to do with it was found to refer so; if there is none, it is there if it was before. So
these are the references found, as long as none is left outside of what was found and functions that
share a place agree on it. -/
theorem reanalyzed_references {s : Space} {architecture : Architecture}
    (built : s.architecture = some architecture) (queued : ∀ x,
      s.functions.queue.contains x = true → s.functions.functions.contains x = true)
    (free : s.scheduler.held = false) (alive : s.scheduler.stopped = false) (fuel : Nat) :
    let after := s.reanalyzed (fuel + 1)
    let found := Discovery.ofStart s architecture s.exploreLimits
    after.functions.queue = .empty ∧ ∃ order : List Word, order.Nodup ∧
      (∀ x, x ∈ order ↔ after.functions.functions.contains x = true) ∧
      (∀ key, after.metadata.outgoing.get? key =
        if s.metadata.outgoing.get? key = some false then some false
        else match (order.filter fun x => (found x).concerns key).getLast? with
          | some x => if key ∈ (found x).references then some true else none
          | none => s.metadata.outgoing.get? key) ∧
      ((∀ key, s.metadata.outgoing.get? key = some true →
          ∃ x ∈ order, (found x).concerns key = true) →
        (∀ x ∈ order, ∀ y ∈ order, ∀ key ∈ (found x).references,
          (found y).concerns key = true → key ∈ (found y).references) →
        ∀ key, after.metadata.outgoing.get? key = some true ↔
          s.metadata.outgoing.get? key ≠ some false ∧
            ∃ x ∈ order, key ∈ (found x).references) := by
  intro after found
  obtain ⟨order, distinct, analysed, outgoing, nothing⟩ :=
    reanalyzed_refers queued free alive fuel
  have decided (key : ReferenceKey) : after.metadata.outgoing.get? key =
      if s.metadata.outgoing.get? key = some false then some false
      else match (order.filter fun x => (found x).concerns key).getLast? with
        | some x => if key ∈ (found x).references then some true else none
        | none => s.metadata.outgoing.get? key := by
    rw [outgoing, Metadata.get?_foldl_refer, built]
    rfl
  refine ⟨nothing, order, distinct, analysed, decided, fun inside agree key => ?_⟩
  rw [decided]
  by_cases user : s.metadata.outgoing.get? key = some false
  · simp [user]
  · rw [if_neg user, Discovery.last_agrees (inside key) fun x member y member' =>
      agree x member y member' key]
    exact (and_iff_right user).symm

theorem mutual_calls_referred :
    (∀ x, callingSpace.functions.queue.contains x = true →
      callingSpace.functions.functions.contains x = true) ∧
    callingSpace.scheduler.held = false ∧ callingSpace.scheduler.stopped = false ∧
    (callingSpace.reanalyzed 1).functions.queue = .empty ∧
    ∀ key, (callingSpace.reanalyzed 1).metadata.outgoing.get? key = some true ↔
      key = ⟨0x10, 0x14, .code⟩ ∨ key = ⟨0x14, 0x10, .code⟩ := by
  have queued := codeSpace_queued 0x10 [4, 2, 1, 0, 4, 0xfa, 1, 0] [0x10]
  obtain ⟨nothing, order, -, analysed, -, exactly⟩ := reanalyzed_references
    (rfl : callingSpace.architecture = some Toy.little) queued rfl rfl 0
  have both (x : Word) : x ∈ order ↔ x = 0x10 ∨ x = 0x14 := by
    have keys : (callingSpace.reanalyzed 1).functions.functions.keys = [0x10, 0x14] := by
      decide +kernel
    rw [analysed, ← Table.mem_keys_iff_contains, keys]
    simp
  have first :
      (Discovery.ofStart callingSpace Toy.little callingSpace.exploreLimits 0x10).references =
        [⟨0x10, 0x14, .code⟩] := by
    decide +kernel
  have second : (Discovery.ofStart callingSpace Toy.little callingSpace.exploreLimits
      0x14).references = [⟨0x14, 0x10, .code⟩] := by decide +kernel
  refine ⟨queued, rfl, rfl, nothing, fun key => ?_⟩
  rw [exactly (fun _ before => nomatch before) ?_]
  · constructor
    · rintro ⟨-, x, member, mine⟩
      rcases (both x).1 member with rfl | rfl
      · exact .inl (by simpa [first] using mine)
      · exact .inr (by simpa [second] using mine)
    · rintro (rfl | rfl)
      · exact ⟨nofun, 0x10, (both _).2 (.inl rfl), by simp [first]⟩
      · exact ⟨nofun, 0x14, (both _).2 (.inr rfl), by simp [second]⟩
  · intro x member y member' key mine concerned
    rcases (both x).1 member with rfl | rfl <;> rcases (both y).1 member' with rfl | rfl
    · exact mine
    · obtain rfl : key = ⟨0x10, 0x14, .code⟩ := by simpa [first] using mine
      exact absurd concerned (by decide +kernel)
    · obtain rfl : key = ⟨0x14, 0x10, .code⟩ := by simpa [second] using mine
      exact absurd concerned (by decide +kernel)
    · exact mine

/-- A call of another function. -/
def callSpace : Space := codeSpace 0 [0xd, 0x10, 0, 1, 0, 0, 0, 0, 0, 0, 0, 0, 0, 0, 0, 0, 1] [0]

/-- A space that was analysed and then written to at its first byte. -/
def overwritten (s : Space) : Space := (write 0 [0xff] (s.reanalyzed 1)).collect.2.2

/-- Two functions of which the second one begins within an instruction of the first one and runs on
behind its call. -/
def overlapSpace : Space :=
  codeSpace 0 [6, 0xa, 0xd, 0x10, 0, 1, 1, 0, 0, 0, 0, 0, 0, 0, 0, 0, 1] [0, 1]

/-- A call that was overwritten is still referred to, and a call that is there is not when another
function has its place. -/
theorem references_go_astray :
    (callSpace.overwritten.reanalyzed 1).metadata.outgoing.get? ⟨0, 0x10, .code⟩ = some true ∧
    (∀ x ∈ (callSpace.overwritten.reanalyzed 1).functions.functions.keys, ⟨0, 0x10, .code⟩ ∉
      (Discovery.ofStart callSpace.overwritten Toy.little callSpace.overwritten.exploreLimits
        x).references) ∧
    (overlapSpace.reanalyzed 1).functions.functions.contains 0 = true ∧
    ⟨2, 0x10, .code⟩ ∈
      (Discovery.ofStart overlapSpace Toy.little overlapSpace.exploreLimits 0).references ∧
    (overlapSpace.reanalyzed 1).metadata.outgoing.get? ⟨2, 0x10, .code⟩ = none := by
  have keys : (callSpace.overwritten.reanalyzed 1).functions.functions.keys = [0, 0x10] := by
    decide +kernel
  refine ⟨by decide +kernel, fun x member => ?_, by decide +kernel, by decide +kernel,
    by decide +kernel⟩
  rw [keys, List.mem_pair] at member
  rcases member with rfl | rfl <;> decide +kernel

end Space

end BinaryAtlas
