import BinaryAtlas.Space.Functions

/-!
Exploring one function: which instructions control can reach from its start, how they fall into
basic blocks, what they call and what they refer to.
-/

set_option autoImplicit false

namespace BinaryAtlas

structure ExploreLimits where
  maxFunctionSize : Word
  maxBlocks : Nat
  deriving DecidableEq, Inhabited

structure Exploration where
  decoded : Table Word Instruction
  /-- Addresses at which a block begins if an instruction was decoded there. -/
  leaders : Table Word Unit
  pending : List Word
  /-- Block starts that were ever pending. -/
  seen : Table Word Unit
  calls : List (Word × Word)
  references : List ReferenceKey
  skipped : Bool
  deriving Inhabited

namespace Exploration

def ofStart (start : Word) : Exploration :=
  let one := Table.empty.insert start ()
  ⟨.empty, one, [start], one, [], [], false⟩

def addLeader (e : Exploration) (a : Word) : Exploration :=
  { e with leaders := e.leaders.insert a () }

def addTarget (e : Exploration) (a : Word) : Exploration :=
  let e := e.addLeader a
  if e.seen.contains a then e
  else { e with seen := e.seen.insert a (), pending := e.pending ++ [a] }

def addReference (e : Exploration) (source target : Word) (kind : ReferenceKind) : Exploration :=
  { e with references := e.references ++ [⟨source, target, kind⟩] }

def addOperands (e : Exploration) (space : Space) (a : Word) (i : Instruction) : Exploration :=
  -- Notes the operands that name valid addresses, other than branch targets.
  let targets := i.branches.filterMap (·.target)
  i.tokens.foldl
    (fun e t =>
      if t.isNumeric && t.value != 0 && !targets.contains t.value && space.isValid t.value then
        e.addReference a t.value .data
      else e)
    e

def addBranch (a : Word) (e : Exploration) (b : Branch) : Exploration :=
  match b.target with
  | none => e
  | some target =>
    match b.kind with
    | .call => { e with calls := e.calls ++ [(a, target)] }.addReference a target .code
    | .unconditional | .conditional => (e.addReference a target .code).addTarget target
    | _ => e

def distance (a b : Word) : Word := if a < b then b - a else a - b

def fetch? (space : Space) (architecture : Architecture) (a : Word) : Option Instruction :=
  if !space.isExecutableAt a then none
  else
    let bytes := space.read a architecture.maxInstructionLength
    if bytes.isEmpty then none
    else
      let i := architecture.decode bytes a
      if i.isValid then some i else none

def following (a : Word) (i : Instruction) : Word := Word.addCapped a (.ofNatCapped i.length)

/-- Follows control from `current`, then from the pending starts, for at most `fuel` steps. -/
def explore (space : Space) (architecture : Architecture) (limits : ExploreLimits) (start : Word) :
    Nat → Option Word → Exploration → Exploration
  | 0, _, e => e
  | fuel + 1, none, e =>
    match e.pending with
    | [] => e
    | a :: rest =>
      explore space architecture limits start fuel (some a) { e with pending := rest }
  | fuel + 1, some a, e =>
    if e.decoded.contains a then
      explore space architecture limits start fuel none (e.addLeader a)
    else if limits.maxBlocks < e.leaders.size ∨ limits.maxFunctionSize ≤ distance a start then
      { e with skipped := true }
    else
      match fetch? space architecture a with
      | none => explore space architecture limits start fuel none e
      | some i =>
        let next := following a i
        let e := i.branches.foldl (addBranch a) (e.addOperands space a i)
        let e := { e with decoded := e.decoded.insert a { i with tokens := [] } }
        if i.endsBlock then
          explore space architecture limits start fuel none
            (if i.endsFlow then e else e.addTarget next)
        else explore space architecture limits start fuel (some next) e

end Exploration

structure Discovery where
  start : Word
  blocks : List BasicBlock
  calls : List (Word × Word)
  references : List ReferenceKey
  skipped : Bool
  deriving DecidableEq, Inhabited

namespace Discovery

def edgeKind? : BranchKind → Option EdgeKind
  | .unconditional => some .unconditional
  | .conditional => some .whenTrue
  | .indirect => some .indirect
  | _ => none

def edgesOf (i : Instruction) (next : Word) : List BlockEdge :=
  i.branches.filterMap (fun b => (edgeKind? b.kind).map fun kind => ⟨kind, b.target⟩) ++
    (if i.endsFlow then [] else [⟨.whenFalse, some next⟩])

/-- Where the block ends that holds `a`, and its edges. -/
def blockEnd (decoded : Table Word Instruction) (leaders : Table Word Unit) :
    Nat → Word → Word × List BlockEdge
  | 0, a => (a, [])
  | fuel + 1, a =>
    match decoded.get? a with
    | none => (a, [])
    | some i =>
      let next := Exploration.following a i
      if i.endsBlock then (next, edgesOf i next)
      else if leaders.contains next && decoded.contains next then
        (next, [⟨.fallthrough, some next⟩])
      else blockEnd decoded leaders fuel next

def cutBlocks (decoded : Table Word Instruction) (leaders : Table Word Unit) : List BasicBlock :=
  (leaders.keys.filter decoded.contains).map fun leader =>
    let (stop, outgoing) := blockEnd decoded leaders (decoded.size + 1) leader
    ⟨leader, stop, outgoing⟩

-- Every step decodes an instruction or takes up a start, so this many are enough.
def exploreFuel : Nat := 0x40000000000000000

def ofStart (space : Space) (architecture : Architecture) (limits : ExploreLimits)
    (start : Word) : Discovery :=
  let e := Exploration.explore space architecture limits start exploreFuel none (.ofStart start)
  if e.skipped then ⟨start, [], [], [], true⟩
  else ⟨start, cutBlocks e.decoded e.leaders, e.calls, e.references, false⟩

def unknown (start : Word) : Discovery := ⟨start, [], [], [], true⟩

end Discovery

end BinaryAtlas
