import BinaryAtlas.Scheduler

/-!
Trying a scheduler out with a pass that follows a script.
-/

set_option autoImplicit false

namespace BinaryAtlas

inductive PassAction where
  | phase (state : AnalysisState) (total : Nat)
  | advance (count : Nat)
  | beginFunction (start : Word)
  | endFunction (start : Word)
  | submit (start : Word)
  | abort
  | schedule
  | hold (held : Bool)
  /-- Waiting for the work at hand; the pass cannot wait for itself. -/
  | wait
  | snap
  | askAborted
  | panic
  deriving DecidableEq, Inhabited

inductive RehearsalNote where
  | run (number : Nat)
  | complete (event : Nat)
  | aborted (value : Bool)
  | snap (scheduler : Scheduler)
  deriving DecidableEq

structure Rehearsal where
  scheduler : Scheduler
  /-- The actions of the runs still to come; the last list serves for all that follow. -/
  script : List (List PassAction)
  runs : Nat
  log : List RehearsalNote

namespace Rehearsal

def ofScript (script : List (List PassAction)) : Rehearsal := ⟨.initial, script, 0, []⟩

def note (r : Rehearsal) (n : RehearsalNote) : Rehearsal := { r with log := r.log ++ [n] }

def edit (r : Rehearsal) (f : Scheduler → Scheduler) : Rehearsal :=
  { r with scheduler := f r.scheduler }

def complete (r : Rehearsal) (due : List Nat) : Rehearsal :=
  due.foldl
    (fun r event =>
      let (scheduler, waited) := r.scheduler.claim event
      let r := { r with scheduler := scheduler }
      if waited then r.note (.complete event) else r)
    r

def abort (r : Rehearsal) : Rehearsal :=
  let (scheduler, due) := r.scheduler.abort
  { r with scheduler := scheduler }.complete due

def act (r : Rehearsal) : PassAction → Rehearsal
  | .phase state total => r.edit (·.setPhase state total)
  | .advance count => r.edit (·.advance count)
  | .beginFunction start => r.edit (·.beginFunction start)
  | .endFunction start => r.edit (·.endFunction start)
  | .submit start => r.edit (·.noteSubmit start)
  | .abort => r.abort
  | .schedule => r.edit (·.schedule)
  | .hold held => r.edit (·.setHold held)
  | .snap => r.note (.snap r.scheduler)
  | .askAborted => r.note (.aborted r.scheduler.aborted)
  | .wait | .panic => r

/-- One pass, up to the first panic. -/
def pass (r : Rehearsal) (actions : List PassAction) : Rehearsal :=
  (actions.takeWhile (· != .panic)).foldl act r

def nextScript : List (List PassAction) → List PassAction × List (List PassAction)
  | [] => ([], [])
  | [last] => (last, [last])
  | actions :: rest => (actions, rest)

def oneRun (r : Rehearsal) : Rehearsal :=
  let (actions, script) := nextScript r.script
  let r := { r with scheduler := r.scheduler.pickUp, script := script, runs := r.runs + 1 }
  let r := (r.note (.run r.runs)).pass actions
  let (scheduler, due) := r.scheduler.finishPass
  ({ r with scheduler := scheduler }.complete due).edit (·.settle)

def settle : Nat → Rehearsal → Rehearsal
  | 0, r => r
  | fuel + 1, r => if r.scheduler.isReady then settle fuel r.oneRun else r

end Rehearsal

end BinaryAtlas
