import BinaryAtlas.Analysis.Pass
import BinaryAtlas.Notifier
import BinaryAtlas.Report.Events

/-!
Observers for trying a space out. One of them logs every event; the others do one thing each when an
event comes that concerns them, and log that they did.
-/

set_option autoImplicit false

namespace BinaryAtlas

structure StepContext where
  met : MetIds
  observers : Nat
  failures : Nat

/-- What an observer does with an event that concerns it. -/
inductive ObserverTask where
  | record (place : Nat)
  | see
  | fail
  | step (operation : StepContext → Op (Naming Json))
  | leave
  /-- Registers one more observer, which notes every event it gets. -/
  | join
  | joined
  | abort

structure Observer where
  number : Nat
  task : ObserverTask
  /-- The name of the events that concern it; all do if there is none. -/
  event : Option String
  limit : Option Nat

structure SessionMemory where
  log : List Json
  met : MetIds
  acts : Table Nat Nat
  deriving Inhabited

namespace SessionMemory

def empty : SessionMemory := ⟨[], [], .empty⟩

def write (m : SessionMemory) (entry : Naming Json) : SessionMemory :=
  let (written, met) := entry m.met
  { m with log := m.log ++ [written], met := met }

def actsOf (m : SessionMemory) (number : Nat) : Nat := (m.acts.get? number).getD 0

def noteAct (m : SessionMemory) (number : Nat) : SessionMemory :=
  { m with acts := m.acts.insert number (m.actsOf number + 1) }

end SessionMemory

namespace Observer

abbrev Doing : Type := Reaction Observer SessionMemory (Naming Json)

def note (entry : Naming Json) (next : Doing) : Doing := .remember (·.write entry) next

def entry (verb : String) (number : Nat) (more : List (Naming Json)) : Naming Json :=
  Report.fields (pure (.string verb) :: pure (.nat number) :: more)

def marked (place : Nat) (event : ChangeEvent) : Naming Json :=
  -- Events of spaces other than the first are marked.
  let mark : List (Naming Json) := if place = 0 then [] else [pure (.string s!"@{place}")]
  Report.fields (mark ++ pure (.string event.name) :: Report.payload event)

def act (o : Observer) (id : Nat) (event : ChangeEvent) : Doing :=
  match o.task with
  | .record place => note (marked place event) .done
  | .see => note (entry "saw" o.number [pure (.string event.name)]) .done
  | .fail => .fail
  | .step operation =>
    note (entry "step" o.number []) <| .look fun audience =>
      let context : StepContext :=
        ⟨audience.memory.met, audience.notifier.size, audience.notifier.failures⟩
      .perform (operation context) fun result =>
        note (entry "stepped" o.number [result]) .done
  | .leave => .unregister id fun found => note (entry "left" o.number [pure (.bool found)]) .done
  | .join => .register ⟨o.number, .joined, none, none⟩ fun _ => .done
  | .joined => note (entry "joined" o.number [pure (.string event.name)]) .done
  | .abort =>
    note (entry "aborted" o.number []) <|
      .perform (do Space.abortAnalysis; pure (pure .null)) fun _ => .done

def react (id : Nat) (o : Observer) (event : ChangeEvent) : Doing :=
  if o.event.all (· == event.name) then
    match o.limit with
    | none => o.act id event
    | some limit =>
      .look fun audience =>
        if audience.memory.actsOf o.number < limit then
          .remember (·.noteAct o.number) (o.act id event)
        else .done
  else .done

end Observer

end BinaryAtlas
