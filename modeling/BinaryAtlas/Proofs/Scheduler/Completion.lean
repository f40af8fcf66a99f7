import BinaryAtlas.Analysis.Rehearsal
import BinaryAtlas.Proofs.Scheduler.Ledger
import Mathlib.Data.List.Induction

/-!
What becomes of completion events, in whatever order the steps of all who take part are taken. Each
comes to one end, none gets lost when the queue is taken, and a drop leaves none that waits.
-/

set_option autoImplicit false

namespace BinaryAtlas

namespace Interplay

variable {c c' : Interplay} {step : Step} {steps : List Step} {hand : Nat}

section Running

theorem run_cons (c : Interplay) (step : Step) (steps : List Step) :
    c.run? (step :: steps) = (c.step? step).bind (·.run? steps) := rfl

theorem run_append (c : Interplay) (first later : List Step) :
    c.run? (first ++ later) = (c.run? first).bind (·.run? later) :=
  List.foldlM_append

theorem run_induction {good : Interplay → Prop}
    (each : ∀ {c c' : Interplay} {step : Step}, good c → c.step? step = some c' → good c')
    (start : good c) (run : c.run? steps = some c') : good c' := by
  induction steps generalizing c with
  | nil =>
    cases run
    exact start
  | cons step later ih =>
    rw [run_cons, Option.bind_eq_some_iff] at run
    obtain ⟨next, taken, run⟩ := run
    exact ih (each start taken) run

theorem initial_kept : initial.ledger.Kept := by
  constructor
  · exact List.nodup_nil
  · exact fun event none => absurd none List.not_mem_nil
  · intro event waits
    simp [Ledger.isPending, ledger, initial, Scheduler.initial] at waits
  · exact List.nodup_nil
  · intro event
    simp [ledger, initial, Scheduler.initial]
  · exact fun event hand none => absurd none List.not_mem_nil

theorem run_kept (run : initial.run? steps = some c) : c.ledger.Kept :=
  @run_induction _ _ _ (fun c => c.ledger.Kept) (fun kept taken => (step_entry taken).kept kept)
    initial_kept run

theorem run_due (kept : c.ledger.Kept) {events : List Nat} (due : c.ledger.Due hand events)
    (run : c.run? steps = some c') : c'.ledger.Due hand events :=
  (@run_induction _ _ _ (fun c => c.ledger.Kept ∧ c.ledger.Due hand events)
    (fun good taken => ⟨(step_entry taken).kept good.1, (step_entry taken).due good.1 good.2⟩)
    ⟨kept, due⟩ run).2

theorem run_settled (disowned : c.ledger.owned = false)
    (none : ∀ event, c.ledger.isPending event = false) (run : c.run? steps = some c') :
    c'.history = c.history := by
  refine (@run_induction _ _ _ (fun later => later.ledger.owned = false ∧
    (∀ event, later.ledger.isPending event = false) ∧ later.history = c.history)
    (fun good taken => ?_) ⟨disowned, none, rfl⟩ run).2.2
  obtain ⟨disowned, none, same⟩ := good
  obtain ⟨disowned, none, kept⟩ := (step_entry taken).settled disowned none
  exact ⟨disowned, none, kept.trans same⟩

end Running

section Dropping

/-- Once a drop has begun the queue is empty, and so are the hands, except for the one that the
worker may be calling while the drop waits for it. -/
def Parting (c : Interplay) : Prop :=
  c.release ≠ .owned → c.scheduler.queue = [] ∧ ∀ hand left, c.hands[hand]? = some left →
    left = [] ∨ (c.worker = .calling hand ∧ c.release.awaits = true)

theorem Parting.of_same (parting : c.Parting) (release : c'.release = c.release)
    (queue : c'.scheduler.queue = c.scheduler.queue) (hands : c'.hands = c.hands)
    (worker : ∀ hand, c.worker = .calling hand → c'.worker = .calling hand) : c'.Parting := by
  intro begun
  rw [release] at begun
  obtain ⟨none, left⟩ := parting begun
  rw [queue, hands, release]
  exact ⟨none, fun hand rest held => (left hand rest held).imp_right (.imp_left (worker hand))⟩

/-- As long as the scheduler is owned, nothing is said. -/
theorem Parting.of_owned (owned : c.release = .owned) : c.Parting := fun begun => absurd owned begun

theorem Parting.all_empty (parting : c.Parting) (begun : c.release ≠ .owned)
    (idle : ∀ hand, c.worker = .calling hand → c.release.awaits = false) {left : List Nat}
    (held : c.hands[hand]? = some left) : left = [] := by
  rcases (parting begun).2 hand left held with empty | ⟨calling, awaits⟩
  · exact empty
  · rw [idle hand calling] at awaits
    cases awaits

theorem step_parting (parting : c.Parting) (taken : c.step? step = some c') : c'.Parting := by
  cases step with
  | report told =>
    cases taken
    exact parting.of_same rfl rfl rfl fun _ same => same
  | cancel event =>
    cases taken
    exact parting.of_same rfl rfl rfl fun _ same => same
  | call hand =>
    simp only [step?] at taken
    split at taken
    · rename_i event rest held
      cases taken
      intro begun
      obtain ⟨none, each⟩ := parting begun
      refine ⟨none, fun other left holds => ?_⟩
      by_cases same : hand = other
      · subst same
        exact .inr ((each hand _ held).resolve_left (List.cons_ne_nil _ _))
      · exact each other left ((List.getElem?_set_ne same).symm.trans holds)
    · cases taken
  | pickUp =>
    obtain ⟨⟨waiting, -⟩, rfl⟩ := of_guarded taken
    refine parting.of_same rfl rfl rfl fun hand calling => ?_
    rw [waiting] at calling
    cases calling
  | endPass =>
    obtain ⟨running, rfl⟩ := of_guarded taken
    intro begun
    have none := (parting begun).1
    -- Whether the pass takes the queue or leaves it, there is nothing in it.
    have nothing : c.scheduler.finishPass.1.queue = [] ∧ c.scheduler.finishPass.2 = [] := by
      rcases c.scheduler.finishPass_cases with ⟨-, -, taken⟩ | ⟨-, left⟩
      · rw [taken]
        exact ⟨rfl, none⟩
      · rw [left]
        exact ⟨none, rfl⟩
    refine ⟨nothing.1, fun hand left held => .inl ?_⟩
    rcases List.mem_append.1 (List.mem_of_getElem? held) with older | new
    · obtain ⟨hand, held⟩ := List.getElem?_of_mem older
      refine parting.all_empty begun (fun _ calling => ?_) held
      rw [running] at calling
      cases calling
    · exact (List.mem_singleton.1 new).trans nothing.2
  | settle =>
    simp only [step?] at taken
    split at taken
    · rename_i own calling
      obtain ⟨empty, rfl⟩ := of_guarded taken
      intro begun
      refine ⟨?_, fun hand left held => .inl ?_⟩
      · show c.scheduler.settle.queue = []
        unfold Scheduler.settle
        split <;> exact (parting begun).1
      · rcases (parting begun).2 hand left held with none | ⟨other, -⟩
        · exact none
        · cases calling.symm.trans other
          exact Option.some.inj (held.symm.trans empty)
    · cases taken
  | leave =>
    obtain ⟨⟨waiting, -⟩, rfl⟩ := of_guarded taken
    refine parting.of_same rfl rfl rfl fun hand calling => ?_
    rw [waiting] at calling
    cases calling
  | drop byPass =>
    obtain ⟨⟨-, rest, pass⟩, rfl⟩ := of_guarded taken
    refine fun _ => ⟨rfl, fun hand left held => ?_⟩
    rcases rest hand (List.getElem?_eq_some_iff.1 held).1 with calling | empty
    · cases byPass with
      | false => exact .inr ⟨calling, rfl⟩
      | true =>
        rw [pass rfl] at calling
        cases calling
    · exact .inl (Option.some.inj (held.symm.trans empty))
  | dropCancel =>
    simp only [step?] at taken
    split at taken
    · rename_i event rest byPass releasing
      cases taken
      intro _
      have before := parting (by simp [releasing])
      rw [releasing] at before
      exact before
    · cases taken
  | dropReturn =>
    simp only [step?] at taken
    split at taken
    · rename_i byPass releasing
      obtain ⟨waited, rfl⟩ := of_guarded taken
      have begun : c.release ≠ .owned := by simp [releasing]
      refine fun _ => ⟨(parting begun).1, fun hand left held => .inl ?_⟩
      refine parting.all_empty begun (fun hand calling => ?_) held
      rw [releasing]
      simp [calling] at waited
      simp [Release.awaits, waited]
    · cases taken
  | schedule | setHold | add | abort =>
    obtain ⟨owned, rfl⟩ := of_guarded taken
    exact .of_owned owned
  | spawn =>
    obtain ⟨⟨-, owned⟩, rfl⟩ := of_guarded taken
    exact .of_owned owned

theorem run_parting (run : initial.run? steps = some c) : c.Parting :=
  run_induction step_parting (Parting.of_owned rfl) run

/-- A drop that has returned leaves no event that waits. -/
theorem none_pending_of_released (kept : c.ledger.Kept) (parting : c.Parting)
    (released : c.release = .released) (event : Nat) : c.scheduler.isPending event = false := by
  have begun : c.release ≠ .owned := by simp [released]
  rw [← Bool.not_eq_true]
  intro waits
  have placed := kept.pending event waits
  simp only [Ledger.placed, ledger, (parting begun).1, released, Release.rest, List.nil_append]
    at placed
  obtain ⟨left, member, inside⟩ := List.mem_flatten.1 placed
  obtain ⟨hand, held⟩ := List.getElem?_of_mem member
  rw [parting.all_empty begun (fun _ _ => by simp [released, Release.awaits]) held] at inside
  cases inside

end Dropping

section Aborting

/-- The steps since the worker last picked up a request. -/
def sincePickUp (steps : List Step) : List Step := steps.reverse.takeWhile (· != .pickUp)

theorem sincePickUp_append (steps : List Step) (step : Step) :
    sincePickUp (steps ++ [step]) =
      if step = .pickUp then [] else step :: sincePickUp steps := by
  simp [sincePickUp, List.takeWhile_cons]

/-- None but the one who picks up a request gets the worker to run, and only an abort counts. -/
theorem running_of_step (taken : c.step? step = some c') (running : c'.worker = .running)
    (other : step ≠ .pickUp) : c.worker = .running ∧
      c'.scheduler.runStart = c.scheduler.runStart ∧
      (step ≠ .abort → c'.scheduler.aborts = c.scheduler.aborts) := by
  cases step with
  | schedule =>
    obtain ⟨-, rfl⟩ := of_guarded taken
    refine ⟨running, ?_⟩
    show c.scheduler.schedule.runStart = _ ∧ (_ → c.scheduler.schedule.aborts = _)
    unfold Scheduler.schedule
    split <;> exact ⟨rfl, fun _ => rfl⟩
  | report told =>
    cases taken
    exact ⟨running, rfl, fun _ => rfl⟩
  | cancel event =>
    cases taken
    exact ⟨running, rfl, fun _ => rfl⟩
  | abort =>
    obtain ⟨-, rfl⟩ := of_guarded taken
    exact ⟨running, rfl, fun none => absurd rfl none⟩
  | pickUp => exact absurd rfl other
  | setHold | add | drop =>
    obtain ⟨-, rfl⟩ := of_guarded taken
    exact ⟨running, rfl, fun _ => rfl⟩
  | spawn | endPass | leave =>
    -- They leave the worker waiting, calling or gone.
    obtain ⟨-, rfl⟩ := of_guarded taken
    cases running
  | call | dropCancel =>
    simp only [step?] at taken
    split at taken
    · cases taken
      exact ⟨running, rfl, fun _ => rfl⟩
    · cases taken
  | settle =>
    simp only [step?] at taken
    split at taken
    · obtain ⟨-, rfl⟩ := of_guarded taken
      cases running
    · cases taken
  | dropReturn =>
    simp only [step?] at taken
    split at taken
    · obtain ⟨-, rfl⟩ := of_guarded taken
      exact ⟨running, rfl, fun _ => rfl⟩
    · cases taken

/-- While no abort comes since a run has begun, the count of aborts is what it was. -/
theorem aborts_eq_runStart (run : initial.run? steps = some c) (running : c.worker = .running)
    (calm : .abort ∉ sincePickUp steps) : c.scheduler.aborts = c.scheduler.runStart := by
  -- By the last step: where a run begins is noted by who picks it up, and only aborts are counted.
  induction steps using List.reverseRecOn generalizing c with
  | nil =>
    cases run
    cases running
  | append_singleton earlier step ih =>
    rw [run_append, Option.bind_eq_some_iff] at run
    obtain ⟨before, run, taken⟩ := run
    have taken : before.step? step = some c := by simpa [run_cons, run?] using taken
    rw [sincePickUp_append] at calm
    by_cases picks : step = .pickUp
    · subst picks
      obtain ⟨-, rfl⟩ := of_guarded taken
      rfl
    · rw [if_neg picks, List.mem_cons, not_or] at calm
      obtain ⟨ran, start, count⟩ := running_of_step taken running picks
      rw [start, count fun same => calm.1 same.symm]
      exact ih run ran calm.2

/-- What takes the queue, after these steps: an abort, or the end of a run that was not aborted and
has no further request to go on to. -/
def TakesQueue (c : Interplay) (steps : List Step) (step : Step) : Prop :=
  step = .abort ∨
    (step = .endPass ∧ .abort ∉ sincePickUp steps ∧ c.scheduler.isReady = false)

theorem hands_of_takesQueue (run : initial.run? steps = some c) (takes : c.TakesQueue steps step)
    (taken : c.step? step = some c') : c'.hands = c.hands ++ [c.scheduler.queue] := by
  rcases takes with rfl | ⟨rfl, calm, nothing⟩
  · obtain ⟨-, rfl⟩ := of_guarded taken
    rfl
  · obtain ⟨running, rfl⟩ := of_guarded taken
    have same := aborts_eq_runStart run running calm
    rcases c.scheduler.finishPass_cases with ⟨-, -, takes⟩ | ⟨more, -⟩
    · show c.hands ++ [c.scheduler.finishPass.2] = _
      rw [takes]
    · rcases more with other | ready
      · exact absurd same other
      · cases nothing.symm.trans ready

end Aborting

section Calling

def concludeAll (c : Interplay) (endings : List Ending) : Interplay := endings.foldl conclude c

/-- What comes to an end leaves everyone where they are. -/
theorem concludeAll_others (c : Interplay) (endings : List Ending) :
    (c.concludeAll endings).worker = c.worker ∧ (c.concludeAll endings).hands = c.hands ∧
      (c.concludeAll endings).release = c.release := by
  induction endings generalizing c with
  | nil => exact ⟨rfl, rfl, rfl⟩
  | cons ending rest ih => exact ih (c.conclude ending)

/-- Who has taken events can call them one after the other, whatever others do. -/
theorem run_calls {left : List Nat} (held : c.hands[hand]? = some left) :
    c.run? (.replicate left.length (.call hand)) =
      some ({ c with hands := c.hands.set hand [] }.concludeAll (left.map (.called · hand))) := by
  have within := (List.getElem?_eq_some_iff.1 held).1
  induction left generalizing c with
  | nil =>
    have same : c.hands.set hand [] = c.hands := by
      rw [← (List.getElem?_eq_some_iff.1 held).2, List.set_getElem_self]
    rw [same]
    rfl
  | cons event rest ih =>
    let next : Interplay := { c with hands := c.hands.set hand rest }.conclude (.called event hand)
    have taken : c.step? (.call hand) = some next := by simp [step?, held, next]
    have within' : hand < next.hands.length := by
      show hand < (c.hands.set hand rest).length
      rwa [List.length_set]
    have later := ih (c := next) (List.getElem?_set_self within) within'
    rw [List.length_cons, List.replicate_succ, run_cons, taken, Option.bind_some, later]
    have same : next.hands.set hand [] = c.hands.set hand [] := by simp [next, conclude]
    rw [same]
    rfl

/-- A hand that is worked off is empty. -/
theorem emptied_of_run_calls {left : List Nat} (held : c.hands[hand]? = some left) :
    ({ c with hands := c.hands.set hand [] }.concludeAll (left.map (.called · hand))).hands[hand]? =
      some [] := by
  rw [(concludeAll_others _ _).2.1]
  exact List.getElem?_set_self (List.getElem?_eq_some_iff.1 held).1

end Calling

/-- Three events are added and one is cancelled while a run goes on. -/
def racingSteps : List Step :=
  [.add [], .schedule, .spawn, .add [], .pickUp, .add [0], .cancel 1]

/-- Another one is cancelled before its turn comes, and the scheduler is dropped meanwhile. -/
def closingSteps : List Step :=
  [.call 0, .drop false, .cancel 2, .call 0, .call 0, .settle, .leave, .dropReturn]

def raced : Interplay := (initial.run? racingSteps).getD initial

def closed : Interplay := (raced.run? (.endPass :: closingSteps)).getD initial

end Interplay

end BinaryAtlas
