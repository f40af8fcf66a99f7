import BinaryAtlas.AddressRange
import BinaryAtlas.Named

/-!
Functions of the program under study, as graphs of basic blocks.
-/

set_option autoImplicit false

namespace BinaryAtlas

inductive EdgeKind where
  | unconditional
  | whenTrue
  | whenFalse
  | fallthrough
  | indirect
  deriving DecidableEq, Inhabited

namespace EdgeKind

instance : Named EdgeKind where
  all := [unconditional, whenTrue, whenFalse, fallthrough, indirect]
  name
    | unconditional => "Unconditional"
    | whenTrue => "True"
    | whenFalse => "False"
    | fallthrough => "Fallthrough"
    | indirect => "Indirect"

end EdgeKind

structure BlockEdge where
  kind : EdgeKind
  target : Option Word
  deriving DecidableEq, Inhabited

/-- Instructions that run one after the other, from `start` on and below `stop`. -/
structure BasicBlock where
  start : Word
  stop : Word
  outgoing : List BlockEdge
  deriving DecidableEq, Inhabited

namespace BasicBlock

def contains (b : BasicBlock) (a : Word) : Bool := b.start ≤ a && a < b.stop

end BasicBlock

structure Function where
  start : Word
  name : String
  auto : Bool
  blocks : List BasicBlock
  skipped : Bool
  calls : List (Word × Word)
  deriving DecidableEq, Inhabited

namespace Function

def defaultName (start : Word) : String := "sub_" ++ hexDigits start.toNat

def unexplored (start : Word) (auto : Bool) : Function :=
  ⟨start, defaultName start, auto, [], false, []⟩

def contains (f : Function) (a : Word) : Bool :=
  -- One of the blocks holds the address; without blocks, only the start counts.
  if f.blocks.isEmpty then a == f.start else f.blocks.any (·.contains a)

def extent (f : Function) : AddressRange :=
  ⟨((f.blocks.map (·.start)).min?).getD f.start, ((f.blocks.map (·.stop)).max?).getD f.start⟩

def blockAt? (f : Function) (a : Word) : Option BasicBlock := f.blocks.find? (·.contains a)

def text (f : Function) : String :=
  f.name ++ " @ " ++ f.start.hexText ++ " (" ++ toString f.blocks.length ++ " blocks)"

end Function

end BinaryAtlas
