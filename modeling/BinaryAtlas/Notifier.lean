import BinaryAtlas.Space

/-!
Observers of a space. An event reaches the observers that are registered when its delivery begins,
each once and in the order in which they registered. What an observer does meanwhile may change the
space, and with it tell of further events, or change the list of observers; a failure concerns
nobody else.
-/

set_option autoImplicit false

namespace BinaryAtlas

/-- The observers of a space, of some type `H`, under the numbers they got. -/
structure Notifier (H : Type) where
  observers : List (Nat × H)
  nextId : Nat
  failures : Nat

namespace Notifier

variable {H : Type}

def empty : Notifier H := ⟨[], 0, 0⟩

instance : Inhabited (Notifier H) := ⟨empty⟩

def register (n : Notifier H) (observer : H) : Notifier H × Nat :=
  ({ n with observers := n.observers ++ [(n.nextId, observer)], nextId := n.nextId + 1 }, n.nextId)

def unregister (n : Notifier H) (id : Nat) : Notifier H × Bool :=
  ({ n with observers := n.observers.filter (·.1 != id) }, n.observers.any (·.1 == id))

def noteFailure (n : Notifier H) : Notifier H := { n with failures := n.failures + 1 }

def size (n : Notifier H) : Nat := n.observers.length

end Notifier

structure Audience (H σ : Type) where
  notifier : Notifier H
  memory : σ

/-- What an observer does when it is called, one thing after the other. -/
inductive Reaction (H σ ρ : Type) where
  | done
  | fail
  | remember (change : σ → σ) (next : Reaction H σ ρ)
  | look (next : Audience H σ → Reaction H σ ρ)
  | register (observer : H) (next : Nat → Reaction H σ ρ)
  | unregister (id : Nat) (next : Bool → Reaction H σ ρ)
  | perform (operation : Op ρ) (next : ρ → Reaction H σ ρ)

/-- How observers react to events, and what is done when a completion event is called. -/
structure Listening (H σ ρ : Type) where
  react : Nat → H → ChangeEvent → Reaction H σ ρ
  complete : Nat → σ → σ

namespace Reaction

variable {H σ ρ : Type}

def play (run : Op ρ → Space → Audience H σ → ρ × Space × Audience H σ) :
    Reaction H σ ρ → Space → Audience H σ → Space × Audience H σ
  | done, s, a => (s, a)
  | fail, s, a => (s, { a with notifier := a.notifier.noteFailure })
  | remember change next, s, a => next.play run s { a with memory := change a.memory }
  | look next, s, a => (next a).play run s a
  | register observer next, s, a =>
    let (notifier, id) := a.notifier.register observer
    (next id).play run s { a with notifier := notifier }
  | unregister id next, s, a =>
    let (notifier, found) := a.notifier.unregister id
    (next found).play run s { a with notifier := notifier }
  | perform operation next, s, a =>
    let (result, s, a) := run operation s a
    (next result).play run s a

end Reaction

namespace Run

variable {H σ : Type}

def heard {α : Type} (tell : Notice → Space → Audience H σ → Space × Audience H σ) :
    Run α → Audience H σ → α × Space × Audience H σ
  | done result s, a => (result, s, a)
  | notify notice s resume, a =>
    let (s, a) := tell notice s a
    (resume s).heard tell a

end Run

namespace Listening

variable {H σ ρ : Type}

def call (l : Listening H σ ρ) (run : Op ρ → Space → Audience H σ → ρ × Space × Audience H σ)
    (event : ChangeEvent) : List (Nat × H) → Space → Audience H σ → Space × Audience H σ
  | [], s, a => (s, a)
  | (id, observer) :: rest, s, a =>
    let (s, a) := (l.react id observer event).play run s a
    l.call run event rest s a

def tell (l : Listening H σ ρ) : Nat → Notice → Space → Audience H σ → Space × Audience H σ
  -- Tells those who listen. Deliveries inside others are at most `depth` deep.
  | 0, _, s, a => (s, a)
  | depth + 1, .changed event, s, a =>
    l.call (fun operation s a => (operation s).heard (l.tell depth) a) event a.notifier.observers s
      a
  | _ + 1, .completed event, s, a => (s, { a with memory := l.complete event a.memory })

-- Deeper than observers that come to an end ever go.
def maxDepth : Nat := 0x100000000

def run {α : Type} (l : Listening H σ ρ) (operation : Op α) (s : Space) (a : Audience H σ) :
    α × Space × Audience H σ :=
  (operation s).heard (l.tell maxDepth) a

end Listening

end BinaryAtlas
