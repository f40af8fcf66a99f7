import BinaryAtlas.Proofs.Scheduler.Completion

/-!
What happens without anyone coming between: a drop that no one disturbs does what `stop` does, and a
rehearsal, in which everything is done in turn, is one of the ways to order the steps.
-/

set_option autoImplicit false

namespace BinaryAtlas

namespace Interplay

variable {c : Interplay}

theorem concludeAll_cancelled (c : Interplay) (events : List Nat) :
    (c.concludeAll (events.map .cancelled)).scheduler =
      events.foldl (fun s event => (s.cancel event).1) c.scheduler := by
  induction events generalizing c with
  | nil => rfl
  | cons event rest ih => exact ih _

theorem run_dropCancels {rest : List Nat} {byPass : Bool}
    (releasing : c.release = .releasing rest byPass) :
    c.run? (.replicate rest.length .dropCancel) =
      some ({ c with release := .releasing [] byPass }.concludeAll (rest.map .cancelled)) := by
  induction rest generalizing c with
  | nil =>
    rw [← releasing]
    rfl
  | cons event rest ih =>
    let next : Interplay :=
      { c with release := .releasing rest byPass }.conclude (.cancelled event)
    have taken : c.step? .dropCancel = some next := by simp [step?, releasing, next]
    rw [List.length_cons, List.replicate_succ, run_cons, taken, Option.bind_some]
    exact ih (c := next) rfl

/-- A drop with no worker to wait for. -/
theorem drop_alone (owned : c.release = .owned) (rest : c.AtRest)
    (idle : c.worker = .absent ∨ c.worker = .gone) :
    ∃ c', c.run? (.drop false :: (.replicate c.scheduler.queue.length .dropCancel ++
        [.dropReturn])) = some c' ∧
      c'.scheduler = c.scheduler.stop ∧ c'.release = .released := by
  let begun : Interplay :=
    { c with scheduler := c.scheduler.close, release := .releasing c.scheduler.queue false }
  have taken : c.step? (.drop false) = some begun := by simp [step?, owned, rest, begun]
  let emptied : Interplay :=
    { begun with release := .releasing [] false }.concludeAll (c.scheduler.queue.map .cancelled)
  have cancelled : begun.run? (.replicate c.scheduler.queue.length .dropCancel) = some emptied :=
    run_dropCancels rfl
  obtain ⟨worker, -, left⟩ := concludeAll_others { begun with release := .releasing [] false }
    (c.scheduler.queue.map .cancelled)
  have returns : emptied.step? .dropReturn = some { emptied with release := .released } := by
    have idle : emptied.worker = .absent ∨ emptied.worker = .gone := worker ▸ idle
    have left : emptied.release = .releasing [] false := left
    simp [step?, left, idle]
  refine ⟨{ emptied with release := .released }, ?_, ?_, rfl⟩
  · rw [run_cons, taken, Option.bind_some, run_append, cancelled, Option.bind_some, run_cons,
      returns]
    rfl
  · rw [Scheduler.stop_eq_cancel_all]
    exact concludeAll_cancelled _ _

/-- The events that were called, in their order. -/
def calls (c : Interplay) : List Nat :=
  c.history.filterMap fun
    | .called event _ => some event
    | .cancelled _ => none

theorem calls_nodup (kept : c.ledger.Kept) : c.calls.Nodup := by
  have sublist : c.calls.Sublist (c.history.map Ending.event) := by
    unfold calls
    induction c.history with
    | nil => exact .slnil
    | cons ending later ih =>
      cases ending with
      | called event hand => exact ih.cons_cons event
      | cancelled event => exact ih.cons event
  exact kept.ended.sublist sublist

end Interplay

namespace Rehearsal

variable {r : Rehearsal} {c : Interplay} {hand : Nat}

def calls (r : Rehearsal) : List Nat :=
  r.log.filterMap fun
    | .complete event => some event
    | _ => none

/-- A rehearsal is at the same point as those who take their steps. -/
structure Plays (r : Rehearsal) (c : Interplay) : Prop where
  scheduler : r.scheduler = c.scheduler
  calls : r.calls = c.calls
  owned : c.release = .owned

/-- Some steps take `c` to where the rehearsal gets, with the worker at that point. -/
def Follows (r : Rehearsal) (c : Interplay) (worker : Worker) : Prop :=
  ∃ steps c', c.run? steps = some c' ∧ r.Plays c' ∧ c'.worker = worker

theorem Plays.edit (plays : r.Plays c) (f : Scheduler → Scheduler) :
    (r.edit f).Plays { c with scheduler := f c.scheduler } :=
  ⟨congrArg f plays.scheduler, plays.calls, plays.owned⟩

theorem Plays.note (plays : r.Plays c) {n : RehearsalNote} (other : ∀ event, n ≠ .complete event) :
    (r.note n).Plays c := by
  refine ⟨plays.scheduler, ?_, plays.owned⟩
  rw [← plays.calls]
  cases n with
  | complete event => exact absurd rfl (other event)
  | _ => simp [Rehearsal.calls, Rehearsal.note]

/-- The event whose turn it is, is called by both or by none. -/
theorem Plays.call (plays : r.Plays c) (event : Nat) :
    Plays (let (scheduler, waited) := r.scheduler.claim event
        let r := { r with scheduler := scheduler }
        if waited then r.note (.complete event) else r)
      (c.conclude (.called event hand)) := by
  obtain ⟨same, called, owned⟩ := plays
  rw [same]
  cases waited : c.scheduler.isPending event with
  | false =>
    have concluded : c.conclude (.called event hand) =
        { c with scheduler := (c.scheduler.claim event).1 } := by
      simp [Interplay.conclude, Scheduler.claim, Ending.event, waited]
    rw [concluded]
    simp only [Scheduler.claim, waited]
    exact ⟨rfl, called, owned⟩
  | true =>
    have concluded : c.conclude (.called event hand) =
        { c with scheduler := (c.scheduler.claim event).1,
                 history := c.history ++ [.called event hand] } := by
      simp [Interplay.conclude, Scheduler.claim, Ending.event, waited]
    rw [concluded]
    simp only [Scheduler.claim, waited, if_true]
    refine ⟨rfl, ?_, owned⟩
    simp only [Rehearsal.calls, Interplay.calls] at called
    simp [Rehearsal.calls, Interplay.calls, Rehearsal.note, called]

theorem Plays.complete (plays : r.Plays c) (due : List Nat) :
    (r.complete due).Plays (c.concludeAll (due.map (.called · hand))) := by
  induction due generalizing r c with
  | nil => exact plays
  | cons event rest ih =>
    refine ih ?_
    exact plays.call event

theorem Follows.of_run {next : Interplay} {worker : Worker} {steps : List Interplay.Step}
    (run : c.run? steps = some next) (follows : r.Follows next worker) : r.Follows c worker := by
  obtain ⟨later, c', run', plays⟩ := follows
  refine ⟨steps ++ later, c', ?_, plays⟩
  rw [Interplay.run_append, run, Option.bind_some, run']

theorem Plays.follows (plays : r.Plays c) : r.Follows c c.worker := ⟨[], c, rfl, plays, rfl⟩

theorem Follows.of_step {next : Interplay} {worker : Worker} {step : Interplay.Step}
    (taken : c.step? step = some next) (follows : r.Follows next worker) : r.Follows c worker := by
  have run : c.run? [step] = some next := by
    rw [Interplay.run_cons, taken]
    rfl
  exact .of_run run follows

/-- What the pass tells of itself. -/
theorem report_follows (plays : r.Plays c) (f : Scheduler → Scheduler)
    (reports : ∀ s : Scheduler, s.report (f s) = f s) : (r.edit f).Follows c c.worker := by
  have taken : c.step? (.report (f c.scheduler)) = some { c with scheduler := f c.scheduler } := by
    simp only [Interplay.step?, reports]
  exact .of_step taken (plays.edit f).follows

/-- A hand is worked off while no one else does anything. -/
theorem complete_follows (plays : r.Plays c) {due : List Nat} (held : c.hands[hand]? = some due) :
    ∃ steps c', c.run? steps = some c' ∧ (r.complete due).Plays c' ∧ c'.worker = c.worker ∧
      c'.hands[hand]? = some [] := by
  let emptied : Interplay := { c with hands := c.hands.set hand [] }
  have start : r.Plays emptied := ⟨plays.scheduler, plays.calls, plays.owned⟩
  exact ⟨_, _, Interplay.run_calls held, start.complete due,
    (Interplay.concludeAll_others _ _).1, Interplay.emptied_of_run_calls held⟩

theorem abort_follows (plays : r.Plays c) : r.abort.Follows c c.worker := by
  have taken : c.step? .abort = some (c.take c.scheduler.abort) := if_pos plays.owned
  have taking : Plays { r with scheduler := c.scheduler.abort.1 } (c.take c.scheduler.abort) :=
    ⟨rfl, plays.calls, plays.owned⟩
  obtain ⟨steps, c', run, completed, worker, -⟩ :=
    complete_follows taking List.getElem?_concat_length
  have follows : r.abort.Follows (c.take c.scheduler.abort) c.worker := by
    refine ⟨steps, c', run, ?_, worker⟩
    unfold abort
    rw [plays.scheduler]
    exact completed
  exact .of_step taken follows

theorem act_follows (plays : r.Plays c) (action : PassAction) :
    (r.act action).Follows c c.worker := by
  cases action with
  | phase state total =>
    refine report_follows plays (·.setPhase state total) fun s => ?_
    unfold Scheduler.setPhase
    split <;> rfl
  | advance count => exact report_follows plays (·.advance count) fun _ => rfl
  | beginFunction start => exact report_follows plays (·.beginFunction start) fun _ => rfl
  | endFunction start => exact report_follows plays (·.endFunction start) fun _ => rfl
  | submit start => exact report_follows plays (·.noteSubmit start) fun _ => rfl
  | abort => exact abort_follows plays
  | schedule =>
    have taken : c.step? .schedule = some _ := if_pos plays.owned
    exact .of_step taken (plays.edit (·.schedule)).follows
  | hold held =>
    have taken : c.step? (.setHold held) = some _ := if_pos plays.owned
    exact .of_step taken (plays.edit (·.setHold held)).follows
  | wait => exact plays.follows
  | panic => exact plays.follows
  | snap => exact (plays.note fun _ => by simp).follows
  | askAborted => exact (plays.note fun _ => by simp).follows

theorem pass_follows (plays : r.Plays c) (actions : List PassAction) :
    (r.pass actions).Follows c c.worker := by
  unfold pass
  induction actions.takeWhile (· != .panic) generalizing r c with
  | nil => exact plays.follows
  | cons action rest ih =>
    obtain ⟨steps, next, run, plays, same⟩ := act_follows plays action
    rw [← same]
    exact .of_run run (ih plays)

theorem oneRun_follows (plays : r.Plays c) (waiting : c.worker = .waiting)
    (ready : r.scheduler.isReady = true) : r.oneRun.Follows c .waiting := by
  rw [plays.scheduler] at ready
  unfold oneRun
  rcases nextScript r.script with ⟨actions, script⟩
  simp only [plays.scheduler]
  -- The request is picked up, the pass goes on, and the queue is taken at its end.
  have picked : c.step? .pickUp =
      some { c with scheduler := c.scheduler.pickUp, worker := .running } :=
    if_pos ⟨waiting, ready⟩
  refine .of_step picked ?_
  have begun : Plays
      { r with scheduler := c.scheduler.pickUp, script := script, runs := r.runs + 1 }
      { c with scheduler := c.scheduler.pickUp, worker := .running } :=
    ⟨rfl, plays.calls, plays.owned⟩
  have noted := begun.note (n := .run (r.runs + 1)) fun _ => by simp
  obtain ⟨steps, passed, run, ended, running⟩ := pass_follows noted actions
  refine .of_run run ?_
  let taken : Interplay :=
    { passed.take passed.scheduler.finishPass with worker := .calling passed.hands.length }
  have takes : passed.step? .endPass = some taken := if_pos running
  refine .of_step takes ?_
  have taking : Plays { (pass _ actions) with scheduler := passed.scheduler.finishPass.1 } taken :=
    ⟨rfl, ended.calls, ended.owned⟩
  obtain ⟨steps, called, run, completed, calling, emptied⟩ :=
    complete_follows taking List.getElem?_concat_length
  refine .of_run run ?_
  have settles : called.step? .settle =
      some { called with scheduler := called.scheduler.settle, worker := .waiting } := by
    simp only [Interplay.step?, calling, taken, emptied, if_true]
  refine .of_step settles ?_
  rw [ended.scheduler]
  exact ⟨[], _, rfl,
    ⟨congrArg Scheduler.settle completed.scheduler, completed.calls, completed.owned⟩, rfl⟩

/-- A rehearsal that goes on until nothing is requested takes steps as they may come. -/
theorem settle_follows (plays : r.Plays c) (waiting : c.worker = .waiting) (fuel : Nat) :
    (r.settle fuel).Follows c .waiting := by
  induction fuel generalizing r c with
  | zero => exact waiting ▸ plays.follows
  | succ fuel ih =>
    unfold settle
    split
    · rename_i ready
      obtain ⟨steps, next, run, plays, waiting⟩ := oneRun_follows plays waiting ready
      exact .of_run run (ih plays waiting)
    · exact waiting ▸ plays.follows

/-- No event is called twice in a rehearsal. -/
theorem settle_calls_once {steps : List Interplay.Step}
    (run : Interplay.initial.run? steps = some c) (plays : r.Plays c)
    (waiting : c.worker = .waiting) (fuel : Nat) :
    (r.settle fuel).calls.Nodup := by
  obtain ⟨later, c', run', plays, -⟩ := settle_follows plays waiting fuel
  rw [plays.calls]
  have whole : Interplay.initial.run? (steps ++ later) = some c' := by
    rw [Interplay.run_append, run, Option.bind_some, run']
  exact Interplay.calls_nodup (Interplay.run_kept whole)

end Rehearsal

end BinaryAtlas
