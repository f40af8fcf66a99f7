import BinaryAtlas.AtlasError

/-!
Limits to the time that work may take. Times are in nanoseconds; the clock is the caller's.
-/

set_option autoImplicit false

namespace BinaryAtlas

/-- A limit for work in rounds, of which only every `interval`-th looks at the clock. -/
structure Deadline where
  limit : Nat
  interval : Nat
  rounds : Nat
  deriving DecidableEq, Inhabited

namespace Deadline

def second : Nat := 1000000000

def millisecond : Nat := 1000000

def ofLimit (limit : Nat) : Deadline := ⟨limit, 1000, 0⟩

def withInterval (d : Deadline) (interval : Nat) : Deadline := { d with interval := max interval 1 }

def timeoutAfter (time : Nat) : AtlasError := .timeout (.ofNatCapped (time / second))

def check (d : Deadline) (elapsed : Nat) : Deadline × Except AtlasError Unit :=
  let d := { d with rounds := d.rounds + 1 }
  if d.rounds % d.interval = 0 ∧ d.limit < elapsed then (d, .error (timeoutAfter elapsed))
  else (d, .ok ())

/-- Rounds one after the other, up to the first that comes too late; the answer is its number. -/
def checkAll (elapsed : Nat) : Nat → Deadline → Deadline × Option (Nat × AtlasError)
  | 0, d => (d, none)
  | count + 1, d =>
    match d.check elapsed with
    | (after, .error e) => (after, some (d.rounds, e))
    | (after, .ok ()) => checkAll elapsed count after

/-- The result of work that ends or, for `none`, never does. -/
def await {α : Type} (limit : Nat) : Option (Except AtlasError α) → Except AtlasError α
  | some result => result
  | none => .error (timeoutAfter limit)

end Deadline

end BinaryAtlas
