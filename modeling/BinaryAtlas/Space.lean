import BinaryAtlas.Architecture
import BinaryAtlas.Backend
import BinaryAtlas.ChangeEvent
import BinaryAtlas.FunctionTable
import BinaryAtlas.Scheduler
import BinaryAtlas.SpaceConfig
import BinaryAtlas.UndoLog

/-!
The state of an address space, and operations on it. An operation may tell the outside of changes on
its way, and whoever listens may use the space before it goes on; so an operation is a function to a
`Run`, which stops at each notice and goes on from the state it is given then.
-/

set_option autoImplicit false

namespace BinaryAtlas

/-- While the depth is not zero, symbol events are kept back. -/
structure SymbolBulk where
  depth : Nat
  deferred : List ChangeEvent
  deriving DecidableEq, Inhabited

structure Space where
  backend : Backend
  storage : Storage
  map : SegmentMap
  metadata : Metadata
  functions : FunctionTable
  undoLog : UndoLog
  scheduler : Scheduler
  architecture : Option Architecture
  config : SpaceConfig
  parentView : Option String
  bulk : SymbolBulk
  idsMade : Nat

inductive Notice where
  | changed (event : ChangeEvent)
  | completed (event : Nat)
  deriving DecidableEq

inductive Run (α : Type) where
  | done (result : α) (space : Space)
  | notify (notice : Notice) (space : Space) (resume : Space → Run α)

namespace Run

def bind {α β : Type} (r : Run α) (next : α → Space → Run β) : Run β :=
  match r with
  | done a s => next a s
  | notify n s resume => notify n s fun s' => (resume s').bind next

/-- What happens when those who listen only take note: the notices in order, the result and the
state at the end. -/
def collect {α : Type} : Run α → List Notice × α × Space
  | done a s => ([], a, s)
  | notify n s resume => (n :: (resume s).collect.1, (resume s).collect.2)

theorem bind_done {α : Type} (r : Run α) : r.bind done = r := by
  induction r with
  | done a s => rfl
  | notify n s resume ih => simp [bind, ih]

theorem bind_assoc {α β γ : Type} (r : Run α) (f : α → Space → Run β) (g : β → Space → Run γ) :
    (r.bind f).bind g = r.bind fun a s => (f a s).bind g := by
  induction r with
  | done a s => rfl
  | notify n s resume ih => simp [bind, ih]

theorem collect_bind {α β : Type} (r : Run α) (f : α → Space → Run β) :
    (r.bind f).collect =
      (r.collect.1 ++ (f r.collect.2.1 r.collect.2.2).collect.1,
        (f r.collect.2.1 r.collect.2.2).collect.2) := by
  induction r with
  | done a s => rfl
  | notify n s resume ih => simp [bind, collect, ih]

end Run

/-- An operation on a space. -/
def Op (α : Type) : Type := Space → Run α

namespace Op

instance : Monad Op where
  pure a := fun s => .done a s
  bind x f := fun s => (x s).bind fun a s' => f a s'

def read {α : Type} (f : Space → α) : Op α := fun s => .done (f s) s

def modify (f : Space → Space) : Op Unit := fun s => .done () (f s)

def update {α : Type} (f : Space → Space × α) : Op α := fun s => .done (f s).2 (f s).1

def notify (n : Notice) : Op Unit := fun s => .notify n s fun s' => .done () s'

def forEach {α : Type} (act : α → Op Unit) : List α → Op Unit
  | [] => pure ()
  | a :: rest => do
    act a
    forEach act rest

end Op

namespace Space

def editMap (f : SegmentMap → SegmentMap) : Op Unit :=
  .modify fun s => { s with map := f s.map }

def editMetadata (f : Metadata → Metadata) : Op Unit :=
  .modify fun s => { s with metadata := f s.metadata }

def editFunctions (f : FunctionTable → FunctionTable) : Op Unit :=
  .modify fun s => { s with functions := f s.functions }

def editScheduler (f : Scheduler → Scheduler) : Op Unit :=
  .modify fun s => { s with scheduler := f s.scheduler }

def record (action : UndoAction) : Op Unit :=
  .modify fun s => { s with undoLog := s.undoLog.record action }

def recordIf (condition : Bool) (action : UndoAction) : Op Unit :=
  if condition then record action else pure ()

def tell (event : ChangeEvent) : Op Unit := do
  if event.isAboutSymbol && (← Op.read fun s => decide (0 < s.bulk.depth)) then
    .modify fun s => { s with bulk := { s.bulk with deferred := s.bulk.deferred ++ [event] } }
  else .notify (.changed event)

theorem tell_at_once {s : Space} {event : ChangeEvent}
    (free : event.isAboutSymbol = false ∨ s.bulk.depth = 0) :
    tell event s = Op.notify (.changed event) s := by
  show (if (event.isAboutSymbol && decide (0 < s.bulk.depth)) = true then _ else _ : Op Unit) s = _
  rcases free with other | outside
  · rw [other]
    rfl
  · simp [outside]

theorem tell_later {s : Space} {event : ChangeEvent} (about : event.isAboutSymbol = true)
    (inside : 0 < s.bulk.depth) :
    tell event s = .done ()
      { s with bulk := { s.bulk with deferred := s.bulk.deferred ++ [event] } } := by
  show (if (event.isAboutSymbol && decide (0 < s.bulk.depth)) = true then _ else _ : Op Unit) s = _
  rw [about, decide_eq_true inside]
  rfl

def tellQuietly (events : List ChangeEvent) : Op Unit := Op.forEach tell events

/-- Tells of changes. Those that give analysis something to do request a run afterwards, if the
space is set up for it. -/
def emit (events : List ChangeEvent) : Op Unit := do
  Op.forEach tell events
  if events.any (·.wakesAnalysis) && (← Op.read (·.config.analysis.autoSchedule)) then
    editScheduler (·.schedule)

def beginBulk : Op Unit :=
  .modify fun s => { s with bulk := { s.bulk with depth := s.bulk.depth + 1 } }

/-- Ends a bulk block; the end of the outermost one tells what was kept back. -/
def endBulk : Op Unit := do
  match ← Op.read (·.bulk.depth) with
  | 0 => pure ()
  | 1 =>
    let deferred ← Op.read (·.bulk.deferred)
    -- The block is over before its events are told, so those who listen may open another.
    .modify fun s => { s with bulk := ⟨0, []⟩ }
    Op.forEach (fun event => .notify (.changed event)) deferred
  | depth + 2 => .modify fun s => { s with bulk := { s.bulk with depth := depth + 1 } }

def freshId : Op Uuid :=
  .update fun s => ({ s with idsMade := s.idsMade + 1 }, .fresh s.idsMade)

def complete (events : List Nat) : Op Unit :=
  events |> Op.forEach fun event => do
    let due ← Op.update fun s =>
      let (scheduler, due) := s.scheduler.claim event
      ({ s with scheduler := scheduler }, due)
    if due then .notify (.completed event)

def viewType (s : Space) : String := s.backend.name

end Space

end BinaryAtlas
