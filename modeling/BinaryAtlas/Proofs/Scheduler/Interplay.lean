import BinaryAtlas.Scheduler
import Mathlib.Data.List.Basic

/-!
Everyone who has to do with a scheduler, taking steps in any order: the threads that use it, those
who cancel an event, the worker that runs the pass, and whoever drops the scheduler in the end.

A step is what is done under one lock. To abort, to end a pass and to drop take more than one: each
takes the events out of the queue at once and goes on to them later one by one, while others do what
they like, also to these events. What a callback does with the scheduler are steps of their own. The
scheduler is dropped by its owner or by the pass, and not by a callback that the worker is calling,
for which a drop could not wait.
-/

set_option autoImplicit false

namespace BinaryAtlas

namespace Scheduler

variable (s : Scheduler)

/-- Adds an event. Those in the queue are looked at one by one, so that some are `stale`: they were
cancelled just after they had been found to wait, and are kept all the same. -/
def addAmong (stale : List Nat) : Scheduler :=
  { s with queue := s.queue.filter (fun event => s.isPending event || stale.contains event) ++
             [s.waiting.length],
           waiting := s.waiting ++ [true] }

theorem addAmong_nil : s.addAmong [] = s.addEvent.1 := by
  simp [addAmong, addEvent]

/-- What is told of the progress of a run, or of submissions. Nothing is decided by it. -/
def report (told : Scheduler) : Scheduler :=
  { s with state := told.state, count := told.count, total := told.total, active := told.active,
           updates := told.updates, submits := told.submits }

/-- The first step of a drop, before the events that it takes along are cancelled. -/
def close : Scheduler := { s with stopped := true, aborted := true, queue := [] }

theorem stop_eq_cancel_all :
    s.stop = s.queue.foldl (fun s event => (s.cancel event).1) s.close := by
  have each (events : List Nat) (t : Scheduler) :
      events.foldl (fun s event => (s.cancel event).1) t =
        { t with waiting := events.foldl (fun waiting event => waiting.set event false)
                   t.waiting } := by
    induction events generalizing t with
    | nil => rfl
    | cons event rest ih => exact ih _
  rw [each]
  rfl

/-- The end of a pass takes the queue if there was no abort and nothing more is to be done. -/
theorem finishPass_cases :
    (s.aborts = s.runStart ∧ s.isReady = false ∧ s.finishPass =
      ({ s with active := .empty, initialDone := true, queue := [] }, s.queue)) ∨
    ((s.aborts ≠ s.runStart ∨ s.isReady = true) ∧ s.finishPass =
      ({ s with active := .empty, initialDone := true }, [])) := by
  by_cases kept : s.aborts ≠ s.runStart ∨ s.isReady = true
  · refine .inr ⟨kept, ?_⟩
    rw [← bne_iff_ne, ← Bool.or_eq_true] at kept
    exact if_pos kept
  · have taken : ¬ (s.aborts != s.runStart || s.isReady) = true := by
      rwa [Bool.or_eq_true, bne_iff_ne]
    rw [not_or, not_not, Bool.not_eq_true] at kept
    exact .inl ⟨kept.1, kept.2, if_neg taken⟩

end Scheduler

/-- How an event comes to its end: whoever holds it in some hand calls it, or an attempt to cancel
it is answered with success. -/
inductive Ending where
  | called (event hand : Nat)
  | cancelled (event : Nat)
  deriving DecidableEq

namespace Ending

def event : Ending → Nat
  | called event _ => event
  | cancelled event => event

end Ending

inductive Worker where
  | absent
  | waiting
  | running
  | calling (hand : Nat)
  | gone
  deriving DecidableEq

/-- Whether the scheduler still has an owner. One that drops it cancels the events that were in the
queue, and waits for the worker unless it is the pass that the worker is running. -/
inductive Release where
  | owned
  | releasing (rest : List Nat) (byPass : Bool)
  | released
  deriving DecidableEq

namespace Release

def rest : Release → List Nat
  | releasing rest _ => rest
  | _ => []

/-- Someone drops the scheduler, and will wait for the worker. -/
def awaits : Release → Bool
  | releasing _ byPass => !byPass
  | _ => false

end Release

structure Interplay where
  scheduler : Scheduler
  worker : Worker
  /-- What was taken out of the queue, one hand for each time, less what has been called since. -/
  hands : List (List Nat)
  release : Release
  /-- How events came to their ends, so far. -/
  history : List Ending
  deriving DecidableEq

inductive Interplay.Step where
  | schedule
  | setHold (held : Bool)
  | report (told : Scheduler)
  | add (stale : List Nat)
  | cancel (event : Nat)
  | abort
  /-- The next event of a hand is called, if it still waits. -/
  | call (hand : Nat)
  | spawn
  | pickUp
  | endPass
  | settle
  | leave
  | drop (byPass : Bool)
  | dropCancel
  | dropReturn
  deriving DecidableEq

namespace Interplay

def initial : Interplay := ⟨.initial, .absent, [], .owned, []⟩

/-- Whoever comes to an event first brings it to its end. -/
def conclude (c : Interplay) (ending : Ending) : Interplay :=
  let (scheduler, waited) := c.scheduler.claim ending.event
  { c with scheduler := scheduler,
           history := if waited then c.history ++ [ending] else c.history }

def take (c : Interplay) (taken : Scheduler × List Nat) : Interplay :=
  { c with scheduler := taken.1, hands := c.hands ++ [taken.2] }

/-- No one is at work on a hand, except for the worker. -/
def AtRest (c : Interplay) : Prop :=
  ∀ hand < c.hands.length, c.worker = .calling hand ∨ c.hands[hand]? = some []

instance (c : Interplay) : Decidable c.AtRest :=
  inferInstanceAs (Decidable (∀ hand < c.hands.length, _))

/-- The next state, if the step can be taken. Who is in a call of the scheduler keeps it alive, so
that none drops it meanwhile, and none but the worker and the pass get at it afterwards. -/
def step? (c : Interplay) : Step → Option Interplay
  | .schedule =>
    if c.release = .owned then some { c with scheduler := c.scheduler.schedule } else none
  | .setHold held =>
    if c.release = .owned then some { c with scheduler := c.scheduler.setHold held } else none
  | .report told => some { c with scheduler := c.scheduler.report told }
  | .add stale =>
    if c.release = .owned then some { c with scheduler := c.scheduler.addAmong stale } else none
  | .cancel event => some (c.conclude (.cancelled event))
  | .abort => if c.release = .owned then some (c.take c.scheduler.abort) else none
  | .call hand =>
    match c.hands[hand]? with
    | some (event :: rest) =>
      some ({ c with hands := c.hands.set hand rest }.conclude (.called event hand))
    | _ => none
  | .spawn =>
    if c.worker = .absent ∧ c.release = .owned then some { c with worker := .waiting } else none
  | .pickUp =>
    if c.worker = .waiting ∧ c.scheduler.isReady = true then
      some { c with scheduler := c.scheduler.pickUp, worker := .running }
    else none
  | .endPass =>
    if c.worker = .running then
      some { c.take c.scheduler.finishPass with worker := .calling c.hands.length }
    else none
  | .settle =>
    match c.worker with
    | .calling hand =>
      if c.hands[hand]? = some [] then
        some { c with scheduler := c.scheduler.settle, worker := .waiting }
      else none
    | _ => none
  | .leave =>
    if c.worker = .waiting ∧ c.scheduler.stopped = true then some { c with worker := .gone }
    else none
  | .drop byPass =>
    if c.release = .owned ∧ c.AtRest ∧ (byPass = true → c.worker = .running) then
      some { c with scheduler := c.scheduler.close,
                    release := .releasing c.scheduler.queue byPass }
    else none
  | .dropCancel =>
    match c.release with
    | .releasing (event :: rest) byPass =>
      some ({ c with release := .releasing rest byPass }.conclude (.cancelled event))
    | _ => none
  | .dropReturn =>
    match c.release with
    | .releasing [] byPass =>
      if byPass = true ∨ c.worker = .absent ∨ c.worker = .gone then
        some { c with release := .released }
      else none
    | _ => none

theorem of_guarded {guard : Prop} [Decidable guard] {next c' : Interplay}
    (taken : (if guard then some next else none) = some c') : guard ∧ next = c' := by
  simpa using taken

/-- What comes of steps that are taken in this order, if each can be taken when it is its turn. -/
def run? (c : Interplay) (steps : List Step) : Option Interplay := steps.foldlM step? c

end Interplay

end BinaryAtlas
