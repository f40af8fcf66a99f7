import BinaryAtlas.Function
import BinaryAtlas.Table

/-!
The functions that are known, those that wait for analysis, and where the program is entered.
-/

set_option autoImplicit false

namespace BinaryAtlas

structure FunctionTable where
  functions : Table Word Function
  queue : Table Word Unit
  entryPoints : List Word
  deriving DecidableEq, Inhabited

namespace FunctionTable

def empty : FunctionTable := ⟨.empty, .empty, []⟩

def enqueue (t : FunctionTable) (start : Word) : FunctionTable :=
  { t with queue := t.queue.insert start () }

def enqueueAll (t : FunctionTable) (starts : List Word) : FunctionTable :=
  starts.foldl enqueue t

def add (t : FunctionTable) (start : Word) (auto : Bool) : FunctionTable × Bool :=
  if t.functions.contains start then (t, false)
  else
    ({ t with functions := t.functions.insert start (.unexplored start auto) }.enqueue start, true)

def addAll (t : FunctionTable) (starts : List Word) (auto : Bool) : FunctionTable :=
  starts.foldl (fun t start => (t.add start auto).1) t

def takeQueue (t : FunctionTable) : FunctionTable × List Word :=
  ({ t with queue := .empty }, t.queue.keys)

def all (t : FunctionTable) : List Function := t.functions.values

def blockAt? (t : FunctionTable) (a : Word) : Option (Word × BasicBlock) :=
  t.all.findSome? fun f => (f.blockAt? a).map fun b => (f.start, b)

def blocksAt (t : FunctionTable) (a : Word) : List BasicBlock := t.all.filterMap (·.blockAt? a)

def blocksFrom (t : FunctionTable) (a : Word) : List BasicBlock :=
  t.all.flatMap fun f => f.blocks.filter (·.start == a)

def nextBlockAfter? (t : FunctionTable) (a : Word) : Option Word :=
  ((t.all.flatMap fun f => f.blocks.map (·.start)).filter (a < ·)).min?

def calls (t : FunctionTable) : List (Word × Word) := t.all.flatMap (·.calls)

def sortedSet (l : List Word) : List Word := (l.mergeSort (· ≤ ·)).eraseReps

def callers (t : FunctionTable) (a : Word) : List Word :=
  sortedSet ((t.calls.filter (·.2 == a)).map (·.1))

def callees (t : FunctionTable) (site : Word) : List Word :=
  sortedSet ((t.calls.filter (·.1 == site)).map (·.2))

end FunctionTable

end BinaryAtlas
