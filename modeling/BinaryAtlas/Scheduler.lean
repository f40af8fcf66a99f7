import BinaryAtlas.Named
import BinaryAtlas.Table
import BinaryAtlas.Word

/-!
When analysis runs. Requests are collected: those that come in while a run is going, or on hold,
lead to one more run. Completion events wait for the end of the work; each is called at most once.

A run goes through the steps `pickUp`, the pass itself, `finishPass`, the calls of the completion
events that were due, and `settle`.
-/

set_option autoImplicit false

namespace BinaryAtlas

inductive AnalysisState where
  | initial
  | hold
  | idle
  | disassembling
  | analyzing
  | extended
  deriving DecidableEq, Inhabited

namespace AnalysisState

instance : Named AnalysisState where
  all := [initial, hold, idle, disassembling, analyzing, extended]
  name
    | initial => "Initial"
    | hold => "Hold"
    | idle => "Idle"
    | disassembling => "Disassembling"
    | analyzing => "Analyzing"
    | extended => "Extended"

def isMidFlight : AnalysisState → Bool
  | disassembling | analyzing => true
  | _ => false

end AnalysisState

structure AnalysisProgress where
  state : AnalysisState
  count : Nat
  total : Nat
  deriving DecidableEq, Inhabited

namespace AnalysisProgress

def text (p : AnalysisProgress) : String :=
  match p.state with
  | .initial => "Initial"
  | .hold => "Hold"
  | .idle => "Idle"
  | .disassembling => s!"Disassembling ({p.count}/{p.total})"
  | .analyzing => s!"Analyzing ({p.count}/{p.total})"
  | .extended => "Extended Analysis"

end AnalysisProgress

structure Scheduler where
  state : AnalysisState
  held : Bool
  requested : Bool
  running : Bool
  stopped : Bool
  aborts : Nat
  /-- The pass at work has been told to stop. -/
  aborted : Bool
  /-- The value of `aborts` when the run at work began. -/
  runStart : Nat
  count : Nat
  total : Nat
  active : Table Word Unit
  updates : Table Word Nat
  submits : Table Word Nat
  initialDone : Bool
  /-- The events due at the end of the work, in the order in which they came. -/
  queue : List Nat
  /-- Of each event made, whether it still waits. -/
  waiting : List Bool
  deriving DecidableEq, Inhabited

namespace Scheduler

def initial : Scheduler :=
  { state := .initial, held := false, requested := false, running := false, stopped := false,
    aborts := 0, aborted := false, runStart := 0, count := 0, total := 0, active := .empty,
    updates := .empty, submits := .empty, initialDone := false, queue := [], waiting := [] }

-- What the outside sees: on hold nothing else is told.
def reported (s : Scheduler) : AnalysisState := if s.held then .hold else s.state

def progress (s : Scheduler) : AnalysisProgress := ⟨s.reported, s.count, s.total⟩

def countOf (counts : Table Word Nat) (key : Word) : Nat := (counts.get? key).getD 0

def bump (counts : Table Word Nat) (key : Word) : Table Word Nat :=
  counts.insert key (countOf counts key + 1)

def activeInfo (s : Scheduler) : List (Word × Nat × Nat) :=
  s.active.keys.map fun f => (f, countOf s.updates f, countOf s.submits f)

def schedule (s : Scheduler) : Scheduler :=
  if s.stopped then s else { s with requested := true }

def setHold (s : Scheduler) (held : Bool) : Scheduler := { s with held := held }

def noteSubmit (s : Scheduler) (f : Word) : Scheduler := { s with submits := bump s.submits f }

def isReady (s : Scheduler) : Bool := s.requested && !s.held && !s.stopped

def isPending (s : Scheduler) (event : Nat) : Bool := s.waiting.getD event false

def addEvent (s : Scheduler) : Scheduler × Nat :=
  let event := s.waiting.length
  ({ s with queue := s.queue.filter s.isPending ++ [event], waiting := s.waiting ++ [true] },
    event)

def claim (s : Scheduler) (event : Nat) : Scheduler × Bool :=
  ({ s with waiting := s.waiting.set event false }, s.isPending event)

def cancel (s : Scheduler) (event : Nat) : Scheduler × Bool := s.claim event

/-- Stops the work at hand. The events that were due are handed over to be called. -/
def abort (s : Scheduler) : Scheduler × List Nat :=
  let interrupted := s.running || s.state.isMidFlight || s.state == .extended
  ({ s with requested := false, aborts := s.aborts + 1, aborted := true,
            state := if interrupted then .idle else s.state,
            count := 0, total := 0, queue := [] }, s.queue)

/-- Ends all: events that wait are cancelled and nothing is taken up any more. -/
def stop (s : Scheduler) : Scheduler :=
  { s with stopped := true, aborted := true, queue := [],
           waiting := s.queue.foldl (fun waiting event => waiting.set event false) s.waiting }

def pickUp (s : Scheduler) : Scheduler :=
  { s with requested := false, running := true, state := .disassembling, count := 0, total := 0,
           aborted := false, runStart := s.aborts }

def setPhase (s : Scheduler) (state : AnalysisState) (total : Nat) : Scheduler :=
  if s.aborted then s else { s with state := state, count := 0, total := total }

def advance (s : Scheduler) (n : Nat) : Scheduler := { s with count := s.count + n }

def beginFunction (s : Scheduler) (f : Word) : Scheduler :=
  { s with active := s.active.insert f (), updates := bump s.updates f }

def endFunction (s : Scheduler) (f : Word) : Scheduler := { s with active := s.active.erase f }

/-- The pass has come to its end. Unless it was aborted or more is to be done, the events that were
due are handed over to be called. -/
def finishPass (s : Scheduler) : Scheduler × List Nat :=
  let s := { s with active := .empty, initialDone := true }
  -- An abort has handed the events over already, and a further run will do so at its end.
  if s.aborts != s.runStart || s.isReady then (s, []) else ({ s with queue := [] }, s.queue)

def settle (s : Scheduler) : Scheduler :=
  if !(s.requested && !s.held) || s.stopped then
    { s with running := false, state := .idle, count := 0, total := 0 }
  else { s with running := false }

end Scheduler

end BinaryAtlas
