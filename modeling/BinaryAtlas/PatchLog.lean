import BinaryAtlas.Named
import BinaryAtlas.Table
import BinaryAtlas.Word

/-!
Which stored bytes are not what they were at first. The log files each run of such bytes under its
start. An operation cuts runs at the ends of a range, puts in, takes out or moves whole runs, and
then joins those that touch at its seams and agree. What the log says about one byte is `statusAt`.
-/

set_option autoImplicit false

namespace BinaryAtlas

inductive ByteStatus where
  | untouched
  | changed
  | inserted
  deriving DecidableEq, Inhabited

namespace ByteStatus

instance : Named ByteStatus where
  all := [untouched, changed, inserted]
  name
    | untouched => "O"
    | changed => "C"
    | inserted => "I"

end ByteStatus

/-- The bytes from `start` on and below `stop` have this status. -/
structure PatchRun where
  start : Word
  stop : Word
  status : ByteStatus
  deriving DecidableEq, Inhabited

structure RunEnd where
  stop : Word
  status : ByteStatus
  deriving DecidableEq, Inhabited

structure PatchLog where
  table : Table Word RunEnd
  deriving DecidableEq, Inhabited

namespace PatchLog

def empty : PatchLog := ⟨.empty⟩

def runs (log : PatchLog) : List PatchRun :=
  log.table.entries.map fun (start, run) => ⟨start, run.stop, run.status⟩

def isModified (log : PatchLog) : Bool := !log.table.isEmpty

def statusAt (log : PatchLog) (offset : Word) : ByteStatus :=
  match log.table.atOrBelow? offset with
  | some (_, run) => if offset < run.stop then run.status else .untouched
  | none => .untouched

/-- Where the run begins that reaches past an offset from below, or the offset itself. -/
def firstTouching (log : PatchLog) (offset : Word) : Word :=
  match log.table.below? offset with
  | some (start, run) => if offset < run.stop then start else offset
  | none => offset

def paint (first last : Nat) (status : ByteStatus) (statuses : List ByteStatus) : List ByteStatus :=
  statuses.mapIdx fun i old => if first ≤ i ∧ i < last then status else old

def statuses (log : PatchLog) (offset : Word) (length : Nat) : List ByteStatus :=
  -- The statuses of `length` bytes; no run covers the last offset there is, or one beyond it.
  let stop := Word.addCapped offset (.ofNatCapped length)
  (log.table.between (log.firstTouching offset) stop).foldl
    (fun statuses e =>
      paint (max e.1 offset - offset).toNat (min e.2.stop stop - offset).toNat e.2.status statuses)
    (List.replicate length .untouched)

def put (log : PatchLog) (start stop : Word) (status : ByteStatus) : PatchLog :=
  ⟨log.table.insert start ⟨stop, status⟩⟩

def splitAt (log : PatchLog) (offset : Word) : PatchLog :=
  match log.table.below? offset with
  | some (start, run) =>
    if offset < run.stop then
      (log.put start offset run.status).put offset run.stop run.status
    else log
  | none => log

def clearRange (log : PatchLog) (start stop : Word) : PatchLog :=
  ⟨((log.splitAt start).splitAt stop).table.filter fun s _ => !(start ≤ s && s < stop)⟩

/-- Joins the run that begins at `start` to the one before it, if they touch and agree. The answer
names the run that is before the next. -/
def joinStep (state : PatchLog × Option Word) (start : Word) : PatchLog × Option Word :=
  match state.2 with
  | none => (state.1, some start)
  | some previous =>
    match state.1.table.get? previous, state.1.table.get? start with
    | some run, some next =>
      if run.stop = start ∧ run.status = next.status then
        ((⟨state.1.table.erase start⟩ : PatchLog).put previous next.stop next.status, some previous)
      else (state.1, some start)
    | _, _ => (state.1, some start)

def coalesce (log : PatchLog) (lo hi : Word) : PatchLog :=
  let first := ((log.table.below? lo).map (·.1)).getD lo
  ((log.table.keys.filter fun s => first ≤ s && s ≤ hi).foldl joinStep (log, none)).1

def set (log : PatchLog) (start stop : Word) (status : ByteStatus) : PatchLog :=
  if start < stop then
    let cleared := log.clearRange start stop
    let filled := if status = .untouched then cleared else cleared.put start stop status
    filled.coalesce start stop
  else log

def ofRuns (runs : List PatchRun) : PatchLog :=
  runs.foldl (fun log r => log.set r.start r.stop r.status) empty

def gaps (stop cursor : Word) : List (Word × RunEnd) → List (Word × Word)
  | [] => if cursor < stop then [(cursor, stop)] else []
  | (start, run) :: rest =>
    if run.stop ≤ cursor then gaps stop cursor rest
    else
      (if cursor < start then [(cursor, start)] else []) ++
        if stop ≤ max cursor run.stop then [] else gaps stop (max cursor run.stop) rest

def markChanged (log : PatchLog) (start stop : Word) : PatchLog :=
  if start < stop then
    let free := gaps stop start (log.table.between (log.firstTouching start) stop)
    (free.foldl (fun log gap => log.put gap.1 gap.2 .changed) log).coalesce start stop
  else log

def moveFrom (log : PatchLog) (offset : Word) (move : Word → Word) : PatchLog :=
  (log.table.entries.filter fun e => offset ≤ e.1).foldl
    (fun log e => log.put (move e.1) (move e.2.stop) e.2.status)
    ⟨log.table.filter fun s _ => s < offset⟩

def insertShift (log : PatchLog) (offset length : Word) : PatchLog :=
  if length = 0 then log
  else
    let moved := (log.splitAt offset).moveFrom offset (· + length)
    (moved.put offset (offset + length) .inserted).coalesce offset (offset + length)

def removeShift (log : PatchLog) (offset length : Word) : PatchLog :=
  if length = 0 then log
  else
    let stop := Word.addCapped offset length
    ((log.clearRange offset stop).moveFrom stop (· - length)).coalesce offset offset

/-- Marks the bytes as changed that differ from those that were read before, each stretch of them at
once. The bytes begin at `offset`; a stretch that is not over began at `since?`. -/
def markDifferences (log : PatchLog) (offset : Word) (since? : Option Word)
    (before : List UInt8) : List UInt8 → PatchLog
  | [] =>
    match since? with
    | some since => log.markChanged since offset
    | none => log
  | d :: data =>
    match before.head? != some d, since? with
    | true, none => log.markDifferences (offset + 1) (some offset) before.tail data
    | false, some since =>
      (log.markChanged since offset).markDifferences (offset + 1) none before.tail data
    | _, _ => log.markDifferences (offset + 1) since? before.tail data

end PatchLog

end BinaryAtlas
