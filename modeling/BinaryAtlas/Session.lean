import BinaryAtlas.Search
import BinaryAtlas.Session.Observer
import BinaryAtlas.Snapshot

/-!
Working with several spaces at a time. Views of one storage see each other's changes, identifiers
are not made twice, and the analysis that a step asks for is done when the step is.
-/

set_option autoImplicit false

namespace BinaryAtlas

structure SessionPlace where
  space : Space
  /-- Spaces with the same number here share their storage. -/
  storageId : Nat
  notifier : Notifier Observer

structure Session where
  places : List SessionPlace
  current : Nat
  idsMade : Nat
  memory : SessionMemory
  files : FileStore
  cursors : List (Nat × ListingCursor)
  completions : List (Nat × Nat)
  observers : List (Nat × Nat)

namespace Session

def empty : Session := ⟨[], 0, 0, .empty, .empty, [], [], []⟩

def space? (s : Session) : Option Space := (s.places[s.current]?).map (·.space)

def completionNumber (s : Session) (place event : Nat) : Nat :=
  s.completions.idxOf (place, event)

def listening (s : Session) (place : Nat) : Listening Observer SessionMemory (Naming Json) where
  react id o event := o.react id event
  complete event memory :=
    memory.write (pure (.array [.string "complete", .nat (s.completionNumber place event)]))

def share (storageId : Nat) (storage : Storage) (places : List SessionPlace) : List SessionPlace :=
  places.map fun p =>
    if p.storageId = storageId then { p with space := { p.space with storage := storage } } else p

def performAt {α : Type} (s : Session) (index : Nat) (place : SessionPlace) (operation : Op α) :
    Session × α :=
  let audience : Audience Observer SessionMemory := ⟨place.notifier, s.memory⟩
  let (result, space, audience) :=
    (s.listening index).run operation { place.space with idsMade := s.idsMade } audience
  let place := { place with space := space, notifier := audience.notifier }
  ({ s with
      places := share place.storageId space.storage (s.places.set index place)
      idsMade := space.idsMade
      memory := audience.memory }, result)

-- More runs of analysis than a step leads to.
def analysisFuel : Nat := 0x100000000

def perform {α : Type} (s : Session) (operation : Op α) : Session × Option α :=
  match s.places[s.current]? with
  | none => (s, none)
  | some place =>
    let (s, result) := s.performAt s.current place do
      let result ← operation
      Space.runRequested analysisFuel
      pure result
    (s, some result)

/-- Adds a space, which becomes the current one and whose events are logged. Analysis that it asks
for by then is done first. -/
def add (s : Session) (space : Space) (storageId : Nat) : Session :=
  -- The observer comes later, so these runs are not logged.
  let (_, _, space) := (Space.runRequested analysisFuel { space with idsMade := s.idsMade }).collect
  let index := s.places.length
  let (notifier, _) := Notifier.empty.register (⟨0, .record index, none, none⟩ : Observer)
  { s with places := s.places ++ [⟨space, storageId, notifier⟩], current := index,
           idsMade := space.idsMade }

def addOwner (s : Session) (space : Space) : Session := s.add space s.places.length

def addView (s : Session) (space : Space) : Session :=
  s.add space (((s.places[s.current]?).map (·.storageId)).getD s.places.length)

def moveTo (s : Session) (index : Nat) : Session := { s with current := index }

def observe (s : Session) (o : Observer) : Session :=
  match s.places[s.current]? with
  | none => s
  | some place =>
    let (notifier, id) := place.notifier.register o
    { s with
      places := s.places.set s.current { place with notifier := notifier }
      observers := s.observers ++ [(s.current, id)] }

def unobserve (s : Session) (number : Nat) : Session × Bool :=
  match s.observers[number]? with
  | none => (s, false)
  | some (index, id) =>
    match s.places[index]? with
    | none => (s, false)
    | some place =>
      let (notifier, found) := place.notifier.unregister id
      ({ s with places := s.places.set index { place with notifier := notifier } }, found)

def onComplete (s : Session) : Session × Nat :=
  match s.places[s.current]? with
  | none => (s, 0)
  | some place =>
    let (scheduler, event) := place.space.scheduler.addEvent
    let place := { place with space := { place.space with scheduler := scheduler } }
    ({ s with
        places := s.places.set s.current place
        completions := s.completions ++ [(s.current, event)] }, s.completions.length)

def pending (s : Session) : List Bool :=
  s.completions.map fun (index, event) =>
    (s.places[index]?).any (·.space.scheduler.isPending event)

def cancel (s : Session) (number : Nat) : Session × Bool :=
  match s.completions[number]? with
  | none => (s, false)
  | some (index, event) =>
    match s.places[index]? with
    | none => (s, false)
    | some place =>
      let (scheduler, waited) := place.space.scheduler.cancel event
      let place := { place with space := { place.space with scheduler := scheduler } }
      ({ s with places := s.places.set index place }, waited)

def addCursor (s : Session) (cursor : ListingCursor) : Session :=
  { s with cursors := s.cursors ++ [(s.current, cursor)] }

def useCursor {α : Type} (s : Session) (number : Nat)
    (action : Space → ListingCursor → ListingCursor × α) :
    Session × Option (Space × ListingCursor × α) :=
  match s.cursors[number]? with
  | none => (s, none)
  | some (index, cursor) =>
    match s.places[index]? with
    | none => (s, none)
    | some place =>
      let (cursor, result) := action place.space cursor
      ({ s with cursors := s.cursors.set number (index, cursor) },
        some (place.space, cursor, result))

def takeLog (s : Session) : Session × List Json :=
  ({ s with memory := { s.memory with log := [] } }, s.memory.log)

/-- Writes a value, whose identifiers become known. -/
def name {α : Type} (s : Session) (value : Naming α) : Session × α :=
  let (written, met) := value s.memory.met
  ({ s with memory := { s.memory with met := met } }, written)

end Session

end BinaryAtlas
