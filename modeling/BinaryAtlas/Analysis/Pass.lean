import BinaryAtlas.Analysis.BasicBlocks
import BinaryAtlas.Space.Strings

/-!
One run of analysis over a space: explore the functions in the queue, batch by batch, until no new
ones turn up, then look for strings.
-/

set_option autoImplicit false

namespace BinaryAtlas

namespace Space

def updateFunction (found : Discovery) : Op Bool := do
  match ← Op.read (·.functions.functions.get? found.start) with
  | none => pure false
  | some f =>
    let changed := f.blocks != found.blocks || f.calls != found.calls || f.skipped != found.skipped
    let f := { f with blocks := found.blocks, calls := found.calls, skipped := found.skipped }
    editFunctions fun t => { t with functions := t.functions.insert found.start f }
    if changed then tellQuietly [.functionUpdated found.start]
    pure true

def applyDiscovery (found : Discovery) : Op Unit := do
  if ← updateFunction found then
    replaceReferences (found.blocks.map fun b => ⟨b.start, b.stop⟩) found.references
    Op.forEach addFoundFunction (FunctionTable.sortedSet (found.calls.map (·.2)))

def isAborted : Op Bool := Op.read (·.scheduler.aborted)

def exploreBatch (architecture : Option Architecture) (limits : ExploreLimits)
    (batch : List Word) : Op (List Discovery) := do
  let found ← Op.read fun s => batch.map fun start =>
    match architecture with
    | some a => Discovery.ofStart s a limits start
    | none => Discovery.unknown start
  editScheduler fun scheduler =>
    batch.foldl (fun scheduler f => ((scheduler.beginFunction f).endFunction f).advance 1) scheduler
  pure found

/-- Works off the queue, at most `fuel` batches of it; the answer says whether it came to its
end. -/
def analyzeQueue (architecture : Option Architecture) (limits : ExploreLimits) : Nat → Op Bool
  | 0 => pure false
  | fuel + 1 => do
    let batch ← Op.update fun s =>
      let (functions, batch) := s.functions.takeQueue
      ({ s with functions := functions }, batch)
    if batch.isEmpty then pure true
    else if ← isAborted then
      -- What was taken from the queue waits for the next run.
      editFunctions (·.enqueueAll batch)
      pure false
    else
      editScheduler (·.setPhase .disassembling batch.length)
      let found ← exploreBatch architecture limits batch
      editScheduler (·.setPhase .analyzing found.length)
      found |> Op.forEach fun discovery => do
        applyDiscovery discovery
        editScheduler (·.advance 1)
      analyzeQueue architecture limits fuel

-- How far in front of a window its scan begins, so that a string that runs into the window is
-- not taken for one of its own.
def stringLookback : Word := 2

/-- The strings of a segment from `position` on, window by window. A window reaches far enough
beyond the part it is responsible for that the strings of that part are seen whole. -/
def scanWindows (s : Space) (first stop overlap window : Word) (least most : Nat) :
    Nat → Word → List StringReference
  | 0, _ => []
  | fuel + 1, position =>
    if position < stop then
      let origin := max (Word.subCapped position stringLookback) first
      let want := min (stop - origin) window
      let bytes := s.read origin want.toNat
      if bytes.isEmpty then []
      else
        let windowStop := origin + .ofNat bytes.length
        let last := bytes.length < want.toNat || stop ≤ windowStop
        -- Strings that begin in the overlap belong to the next window.
        let ownedStop := if last then windowStop else windowStop - overlap
        let found := (StringScan.scan bytes origin least most).filter fun string =>
          position ≤ string.start && string.start < ownedStop
        if last then found
        else found ++ scanWindows s first stop overlap window least most fuel ownedStop
    else []

def segmentStrings (s : Space) (segment : Segment) : List StringReference :=
  let most := max s.config.analysis.maxStringLength 1
  let overlap := Word.mulCapped most 2
  let window := max s.config.search.chunkSize (overlap * 2 + stringLookback * 2)
  let stop := segment.start + min segment.dataLength segment.length
  scanWindows s segment.start stop overlap window s.config.analysis.minStringLength.toNat
    most.toNat (stop - segment.start).toNat segment.start

def holdsStrings (segment : Segment) : Bool :=
  segment.isReadable && !segment.isExecutable && !segment.range.isEmpty

def findStrings (segments : List Segment) : Op Unit :=
  segments |> Op.forEach fun segment => do
    if !(← isAborted) && holdsStrings segment then
      let found ← Op.read (·.segmentStrings segment)
      replaceStrings (.ofLength segment.start segment.length) found

-- Each batch but those that observers ask for holds a new function, so this many are enough.
def batchFuel : Nat := 0x10000000000000001

def analysisPass : Op Unit := do
  let limits ← Op.read fun s =>
    (⟨s.config.analysis.maxFunctionSize, s.config.analysis.maxBlocksPerFunction.toNat⟩ :
      ExploreLimits)
  let architecture ← Op.read (·.architecture)
  -- A run that was aborted leaves the known strings as they are.
  if ← analyzeQueue architecture limits batchFuel then
    if !(← isAborted) then
      editScheduler (·.setPhase .extended 0)
      findStrings (← Op.read (·.map.segments))

/-- One run as the scheduler sees it, from the request to the end. -/
def analysisRun : Op Unit := do
  editScheduler (·.pickUp)
  analysisPass
  let due ← Op.update fun s =>
    let (scheduler, due) := s.scheduler.finishPass
    ({ s with scheduler := scheduler }, due)
  complete due
  editScheduler (·.settle)

def runRequested : Nat → Op Unit
  | 0 => pure ()
  | fuel + 1 => do
    if ← Op.read (·.scheduler.isReady) then
      analysisRun
      runRequested fuel

def requestAnalysis : Op Unit := do
  if !(← Op.read (·.scheduler.held)) then editScheduler (·.schedule)

def reanalyze : Op Unit := do
  let starts ← Op.read (·.functions.functions.keys)
  editFunctions (·.enqueueAll starts)
  starts |> Op.forEach fun start => editScheduler (·.noteSubmit start)
  requestAnalysis

def abortAnalysis : Op Unit := do
  let due ← Op.update fun s =>
    let (scheduler, due) := s.scheduler.abort
    ({ s with scheduler := scheduler }, due)
  complete due

end Space

end BinaryAtlas
