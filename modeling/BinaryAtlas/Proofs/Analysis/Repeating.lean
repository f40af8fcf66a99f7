import BinaryAtlas.Proofs.Analysis.Advancing
import BinaryAtlas.Proofs.Space.Automatic

/-!
Analysis of all functions, done a second time while nothing has changed. It finds what is known, and
is silent but where segments that overlap hold different strings.
-/

set_option autoImplicit false

namespace BinaryAtlas

namespace Space

open Op

theorem sweeps_ground {s s' : Space} {window : Word} (ground : s.ground = s'.ground)
    (config : s.config = s'.config) (sized : windowSize? s.config = some window)
    (sized' : windowSize? s'.config = some window) (segments : List Segment) :
    s.sweeps sized segments = s'.sweeps sized' segments := by
  simp only [Space.ground, Prod.mk.injEq] at ground
  have read : s.read = s'.read := by
    funext a length
    simp only [Space.read, ground]
  have found (segment : Segment) : s.sweep sized segment = s'.sweep sized' segment := by
    simp only [sweep, segmentStrings_of_read read config]
  unfold sweeps
  exact List.map_congr_left fun segment _ => found segment

/-- What a pass does when the queue has been worked off. -/
def concludePass : Op Unit := do
  if !(← isAborted) then
    editScheduler (·.setPhase .extended 0)
    findStrings (← Op.read (·.map.segments))

theorem concludePass_renews {s : Space} {window : Word}
    (sized : windowSize? s.config = some window) (running : s.scheduler.aborted = false)
    (filed : s.metadata.strings.FiledBy (·.start)) :
    let renewed := Sweep.renewAll (s.sweeps sized s.map.segments) s.metadata.strings
    concludePass.changes s = renewed.2 ∧ (concludePass s).collect.2.2 =
      { s with scheduler := s.scheduler.setPhase .extended 0 }.withStrings renewed.1 := by
  have same : { s with scheduler := s.scheduler.setPhase .extended 0 }.sweeps sized
      s.map.segments = s.sweeps sized s.map.segments := by
    apply sweeps_ground <;> rfl
  obtain ⟨told, after⟩ := findStrings_renews
    { s with scheduler := s.scheduler.setPhase .extended 0 } sized
    ((s.scheduler.aborted_setPhase .extended 0).trans running) filed s.map.segments
  rw [same] at told after
  unfold concludePass isAborted
  rw [changes_read_bind, collect_read_bind, running]
  exact ⟨told, after⟩

/-- After the queue the strings are searched for, and nothing else changes. -/
theorem analysisPass_renews {s worked : Space} {window : Word}
    (sized : windowSize? s.config = some window) (running : s.scheduler.aborted = false)
    (filed : s.metadata.strings.FiledBy (·.start))
    (finished : ((analyzeQueue s.architecture s.exploreLimits batchFuel) s).collect.2 =
      (true, worked)) (same : worked.surroundings = s.surroundings) :
    let renewed := Sweep.renewAll (s.sweeps sized s.map.segments) s.metadata.strings
    analysisPass.changes s =
        (analyzeQueue s.architecture s.exploreLimits batchFuel).changes s ++ renewed.2 ∧
      (analysisPass s).collect.2.2 =
        { worked with scheduler := worked.scheduler.setPhase .extended 0 }.withStrings
          renewed.1 := by
  simp only [surroundings, Prod.mk.injEq] at same
  obtain ⟨ground, -, config, strings, orders⟩ := same
  have active : worked.scheduler.aborted = false :=
    (congrArg (·.2.2.1) orders).trans running
  have sized' : windowSize? worked.config = some window := by rw [config, sized]
  have searched : worked.sweeps sized' worked.map.segments = s.sweeps sized s.map.segments := by
    rw [show worked.map = s.map from congrArg (·.2.2) ground]
    exact sweeps_ground ground config sized' sized _
  obtain ⟨told, after⟩ := concludePass_renews sized' active (by rw [strings]; exact filed)
  rw [strings, searched] at told after
  unfold analysisPass
  rw [changes_read_bind, collect_read_bind, changes_read_bind, collect_read_bind, changes_bind,
    collect_bind]
  change (analyzeQueue s.architecture s.exploreLimits batchFuel).changes s ++
      Op.changes (if ((analyzeQueue s.architecture s.exploreLimits batchFuel) s).collect.2.1 = true
          then concludePass else pure ())
        ((analyzeQueue s.architecture s.exploreLimits batchFuel) s).collect.2.2 = _ ∧
    ((if ((analyzeQueue s.architecture s.exploreLimits batchFuel) s).collect.2.1 = true
        then concludePass else pure () : Op Unit)
      ((analyzeQueue s.architecture s.exploreLimits batchFuel) s).collect.2.2).collect.2.2 = _
  rw [finished, if_pos rfl, told]
  exact ⟨rfl, after⟩

/-- What holds analysis back. -/
def brakes (s : Space) : Bool × Bool := (s.scheduler.held, s.scheduler.stopped)

theorem complete_brakes (events : List Nat) : Keeps brakes (complete events) := by
  refine keeps_forEach (fun event => keeps_bind (fun _ => rfl) fun due => ?_) events
  cases due with
  | false => exact keeps_pure ()
  | true => exact keeps_notify _

theorem changes_complete (events : List Nat) (s : Space) : (complete events).changes s = [] := by
  refine changes_forEach_eq_nil (fun _ => True) (fun event _ s _ => ⟨?_, trivial⟩) trivial
  show Op.changes (if (s.scheduler.claim event).2 = true then notify (.completed event) else
    pure ()) _ = []
  split <;> rfl

/-- Besides its pass a run tells of nothing but its end, and does not hold analysis back. -/
theorem analysisRun_passes (s : Space) :
    analysisRun.changes s = analysisPass.changes { s with scheduler := s.scheduler.pickUp } ∧
      brakes (analysisRun s).collect.2.2 =
        brakes (analysisPass { s with scheduler := s.scheduler.pickUp }).collect.2.2 := by
  constructor
  · unfold analysisRun
    rw [changes_editScheduler_bind, changes_bind, changes_update_bind, changes_bind,
      changes_complete]
    exact List.append_nil _
  · unfold analysisRun
    rw [collect_editScheduler_bind, collect_bind]
    refine keeps_bind (fun s => ?_) (fun due => keeps_bind (complete_brakes due) fun _ s => ?_) _
    · show (s.scheduler.finishPass.1.held, s.scheduler.finishPass.1.stopped) = _
      unfold Scheduler.finishPass
      simp only
      split <;> rfl
    · show (s.scheduler.settle.held, s.scheduler.settle.stopped) = _
      unfold Scheduler.settle
      split <;> rfl

/-- Analysis of all functions, up to the end of the runs that it asks for. -/
def reanalysis (fuel : Nat) : Op Unit := do
  reanalyze
  runRequested fuel

theorem changes_reanalyze (s : Space) : reanalyze.changes s = [] := by
  unfold reanalyze
  rw [changes_read_bind, changes_bind, changes_bind]
  have submits (starts : List Word) (s : Space) :
      (forEach (fun start => editScheduler (·.noteSubmit start)) starts).changes s = [] :=
    changes_forEach_eq_nil (fun _ => True) (fun _ _ _ _ => ⟨rfl, trivial⟩) trivial
  have requests (s : Space) : requestAnalysis.changes s = [] := by
    show Op.changes (if (!s.scheduler.held) = true then editScheduler (·.schedule) else pure ())
      s = []
    split <;> rfl
  rw [submits, requests]
  rfl

theorem changes_runRequested {s : Space} (ready : s.scheduler.isReady = true)
    (last : (analysisRun s).collect.2.2.scheduler.requested = false) (fuel : Nat) :
    (runRequested (fuel + 1)).changes s = analysisRun.changes s := by
  unfold runRequested
  rw [changes_read_bind, ready, if_pos rfl, changes_bind]
  cases fuel with
  | zero => exact List.append_nil _
  | succ fuel =>
    unfold runRequested
    rw [changes_read_bind]
    simp only [Scheduler.isReady, last, Bool.false_and, Bool.false_eq_true, if_false]
    exact List.append_nil _

/-- What analysis of all functions leaves and tells of: what working off the queue does, and what
the search for strings does. -/
theorem reanalysis_renews {s worked : Space} {window : Word}
    (sized : windowSize? s.config = some window) (free : s.scheduler.held = false)
    (alive : s.scheduler.stopped = false) (filed : s.metadata.strings.FiledBy (·.start))
    (finished : ((analyzeQueue s.architecture s.exploreLimits batchFuel) s.resumed).collect.2 =
      (true, worked)) (same : worked.surroundings = s.resumed.surroundings) (fuel : Nat) :
    let renewed := Sweep.renewAll (s.sweeps sized s.map.segments) s.metadata.strings
    (reanalysis (fuel + 1)).changes s =
        (analyzeQueue s.architecture s.exploreLimits batchFuel).changes s.resumed ++ renewed.2 ∧
      (s.reanalyzed (fuel + 1)).functions = worked.functions ∧
      (s.reanalyzed (fuel + 1)).metadata.strings = renewed.1 ∧
      brakes (s.reanalyzed (fuel + 1)) = brakes s := by
  have searched : s.resumed.sweeps sized s.map.segments = s.sweeps sized s.map.segments := by
    apply sweeps_ground <;> rfl
  obtain ⟨told, after⟩ := analysisPass_renews (s := s.resumed) sized rfl filed finished same
  rw [show s.resumed.map.segments = s.map.segments from rfl, searched] at told after
  obtain ⟨changes, braked⟩ := analysisRun_passes s.summoned
  have left := collect_analysisRun s.summoned
  change analysisRun.changes s.summoned = analysisPass.changes s.resumed at changes
  change brakes _ = brakes (analysisPass s.resumed).collect.2.2 at braked
  change _ = findings (analysisPass s.resumed).collect.2.2 at left
  rw [after] at braked left
  simp only [findings, Prod.mk.injEq] at left
  obtain ⟨functions, metadata, requested⟩ := left
  have orders : worked.scheduler.orders = s.resumed.scheduler.orders := congrArg (·.2.2.2.2) same
  -- Nothing in the run asks for another one.
  have only : (analysisRun s.summoned).collect.2.2.scheduler.requested = false := by
    refine requested.trans ?_
    exact (Scheduler.requested_setPhase ..).trans (congrArg (·.2.2.2) orders)
  have whole := reanalyzed_run free alive only fuel
  refine ⟨?_, by rw [whole]; exact functions, ?_, ?_⟩
  · unfold reanalysis
    rw [changes_bind, changes_reanalyze, List.nil_append, collect_reanalyze free,
      changes_runRequested (isReady_summoned free alive) only, changes, told]
    rfl
  · rw [whole, metadata]
    rfl
  · obtain ⟨submits, submitted⟩ := s.scheduler.submitted_eq s.functions.functions.keys
    have kept := (worked.scheduler.orders_setPhase .extended 0).trans orders
    have resumed : brakes s.resumed = brakes s := by
      simp [brakes, Space.resumed, summoned, submitted, Scheduler.schedule, Scheduler.pickUp, alive]
    rw [whole, braked, ← resumed]
    exact Prod.ext (congrArg (·.1) kept) (congrArg (·.2.1) kept)

/-- Two segments that are searched hold different strings at an address, or one of them holds one
there and the other does not. -/
def Contested (s : Space) (a : Word) : Prop :=
  ∃ t ∈ s.map.segments, ∃ u ∈ s.map.segments, holdsStrings t = true ∧ holdsStrings u = true ∧
    (AddressRange.ofLength t.start t.length).contains a = true ∧
    (AddressRange.ofLength u.start u.length).contains a = true ∧
    (s.segmentStrings t).find? (·.start == a) ≠ (s.segmentStrings u).find? (·.start == a)

theorem contested_iff {s : Space} {window : Word} (sized : windowSize? s.config = some window)
    (a : Word) : s.Contested a ↔
      ∃ w ∈ s.sweeps sized s.map.segments, ∃ v ∈ s.sweeps sized s.map.segments,
        w.range.contains a = true ∧ v.range.contains a = true ∧ w.at? a ≠ v.at? a := by
  simp only [sweeps, List.mem_map, List.mem_filter]
  constructor
  · rintro ⟨t, member, u, member', holds, holds', inside, inside', differ⟩
    exact ⟨_, ⟨t, ⟨member, holds⟩, rfl⟩, _, ⟨u, ⟨member', holds'⟩, rfl⟩, inside, inside', differ⟩
  · rintro ⟨_, ⟨t, ⟨member, holds⟩, rfl⟩, _, ⟨u, ⟨member', holds'⟩, rfl⟩, inside, inside', differ⟩
    exact ⟨t, member, u, member', holds, holds', inside, inside', differ⟩

/-- Analysis of all functions does not touch what it looks at. -/
theorem reanalyzed_keeps (s : Space) (fuel : Nat) :
    (s.reanalyzed fuel).ground = s.ground ∧ (s.reanalyzed fuel).architecture = s.architecture ∧
      (s.reanalyzed fuel).config = s.config := by
  have kept : (s.reanalyzed fuel).lasting = s.lasting := by
    unfold reanalyzed
    rw [collect_bind, runRequested_lasting, reanalyze_lasting]
  simp only [lasting, Prod.mk.injEq] at kept
  obtain ⟨backend, storage, map, architecture, config, -⟩ := kept
  exact ⟨by simp only [ground, backend, storage, map], architecture, config⟩

theorem functions_resumed (s : Space) :
    s.resumed.functions.functions = s.functions.functions :=
  FunctionTable.enqueueAll_functions _ _

/-- Asking for analysis of all functions only makes them wait. -/
theorem worked_off_resumed (s : Space) :
    { s.resumed.functions with queue := .empty } = { s.functions with queue := .empty } := by
  have waits (starts : List Word) (t : FunctionTable) :
      { t.enqueueAll starts with queue := .empty } = { t with queue := .empty } := by
    induction starts generalizing t with
    | nil => rfl
    | cons start rest ih => exact ih (t.enqueue start)
  exact waits _ _

/-- When analysis of all functions is asked for, working off the queue explores them all. -/
theorem resumed_explores (s : Space) :
    ∃ worked, ((analyzeQueue s.architecture s.exploreLimits batchFuel) s.resumed).collect.2 =
        (true, worked) ∧
      worked.functions.queue = .empty ∧ worked.surroundings = s.resumed.surroundings ∧
      ∀ x, worked.functions.functions.contains x = true →
        Explored (s.resumed.discovery s.architecture s.exploreLimits) s.resumed worked x := by
  have queued (x : Word) (held : s.resumed.functions.functions.contains x = true) :
      s.resumed.functions.queue.contains x = true := by
    rw [contains_resumed, ← Table.mem_keys_iff_contains] at held
    simp only [resumed, summoned, contains_queue_enqueueAll, held, decide_true, Bool.true_or]
  refine analyzeQueue_explores s.architecture s.exploreLimits rfl rfl
    (fun x held => .inl (queued x held)) batchFuel (.inr ?_)
  rw [show batchFuel = 0x10000000000000001 from rfl]
  omega

/-- Where they all are explored already, it changes and tells nothing. -/
theorem resumed_silent {s : Space} (nothing : s.functions.queue = .empty)
    (explored : ∀ x, s.functions.functions.contains x = true →
      Explored (s.discovery s.architecture s.exploreLimits) s s x) :
    (analyzeQueue s.architecture s.exploreLimits batchFuel).changes s.resumed = [] ∧
      ((analyzeQueue s.architecture s.exploreLimits batchFuel) s.resumed).collect.2.2.functions =
        s.functions := by
  have known (x : Word) (held : s.resumed.functions.functions.contains x = true) :
      Explored (s.resumed.discovery s.architecture s.exploreLimits) s.resumed s.resumed x := by
    rw [contains_resumed] at held
    refine (explored x held).transfer ?_ rfl s.functions_resumed.symm
    rw [discovery_resumed]
  have queued (x : Word) (waits : s.resumed.functions.queue.contains x = true) :
      s.resumed.functions.functions.contains x = true := by
    rw [contains_resumed]
    refine (waiting_resumed (fun y waits => ?_) x).1 waits
    rw [nothing] at waits
    cases waits
  obtain ⟨silent, functions⟩ := analyzeQueue_silent s.architecture s.exploreLimits
    (s := s.resumed) rfl queued known (batchFuel - 2)
  refine ⟨silent, functions.trans (s.worked_off_resumed.trans ?_)⟩
  rw [← nothing]

/-- After analysis of all functions each of them is explored. -/
theorem reanalyzed_explored {s : Space} {window : Word}
    (sized : windowSize? s.config = some window) (free : s.scheduler.held = false)
    (alive : s.scheduler.stopped = false) (filed : s.metadata.strings.FiledBy (·.start))
    (fuel : Nat) :
    let after := s.reanalyzed (fuel + 1)
    after.functions.queue = .empty ∧
      (∀ x, after.functions.functions.contains x = true →
        Explored (after.discovery after.architecture after.exploreLimits) after after x) ∧
      after.metadata.strings =
        (Sweep.renewAll (s.sweeps sized s.map.segments) s.metadata.strings).1 ∧
      brakes after = brakes s := by
  intro after
  obtain ⟨worked, finished, nothing, same, explored⟩ := s.resumed_explores
  obtain ⟨-, functions, strings, braked⟩ :=
    reanalysis_renews sized free alive filed finished same fuel
  obtain ⟨ground, architecture, config⟩ := s.reanalyzed_keeps (fuel + 1)
  have ground : s.resumed.ground = after.ground := ground.symm
  refine ⟨functions ▸ nothing, fun x held => ?_, strings, braked⟩
  refine (explored x (functions ▸ held)).transfer ?_ ground (congrArg (·.functions) functions.symm)
  have limits : after.exploreLimits = s.exploreLimits := by simp only [exploreLimits, after, config]
  rw [architecture, limits]
  exact discovery_ground ground ..

/-- A second time, the functions are as they were, and the strings are searched for where those of
the first time are known. -/
theorem reanalysis_again {s : Space} {window : Word}
    (sized : windowSize? s.config = some window) (free : s.scheduler.held = false)
    (alive : s.scheduler.stopped = false) (filed : s.metadata.strings.FiledBy (·.start))
    (fuel fuel' : Nat) :
    let after := s.reanalyzed (fuel + 1)
    let sweeps := s.sweeps sized s.map.segments
    let again := Sweep.renewAll sweeps (Sweep.renewAll sweeps s.metadata.strings).1
    (reanalysis (fuel' + 1)).changes after = again.2 ∧
      (after.reanalyzed (fuel' + 1)).functions = after.functions ∧
      (after.reanalyzed (fuel' + 1)).metadata.strings = again.1 := by
  intro after sweeps again
  obtain ⟨nothing, explored, strings, braked⟩ := reanalyzed_explored sized free alive filed fuel
  obtain ⟨ground, -, config⟩ := s.reanalyzed_keeps (fuel + 1)
  have sized' : windowSize? after.config = some window := by rw [config, sized]
  have searched : after.sweeps sized' after.map.segments = sweeps := by
    rw [show after.map = s.map from congrArg (·.2.2) ground]
    exact sweeps_ground ground config sized' sized _
  -- The functions all wait again, and are all explored already.
  obtain ⟨worked, finished, -, same, -⟩ := after.resumed_explores
  obtain ⟨silent, functions⟩ := resumed_silent nothing explored
  obtain ⟨told, functions', strings', -⟩ := reanalysis_renews sized'
    ((congrArg (·.1) braked).trans free) ((congrArg (·.2) braked).trans alive)
    (strings ▸ Sweep.renewAll_filed filed) finished same fuel'
  rw [silent, List.nil_append, searched, strings] at told
  rw [searched, strings] at strings'
  rw [finished] at functions
  exact ⟨told, functions'.trans functions, strings'⟩

/-- Analysis of all functions that comes to its end, done a second time while nothing has changed,
leaves the functions and the strings as they are. It tells of strings only, and of those at an
address just if two segments that are searched hold different ones there. -/
theorem reanalyzed_twice {s : Space} {window : Word}
    (free : s.scheduler.held = false) (alive : s.scheduler.stopped = false)
    (filed : s.metadata.strings.FiledBy (·.start))
    (sized : windowSize? s.config = some window) (fuel fuel' : Nat) :
    let after := s.reanalyzed (fuel + 1)
    let told := (reanalysis (fuel' + 1)).changes after
    after.functions.queue = .empty ∧
      (after.reanalyzed (fuel' + 1)).functions = after.functions ∧
      (after.reanalyzed (fuel' + 1)).metadata.strings = after.metadata.strings ∧
      (∀ event ∈ told, ∃ a, event.IsOfString a) ∧
      ∀ a, (∃ event ∈ told, event.IsOfString a) ↔ s.Contested a := by
  intro after told
  obtain ⟨nothing, -, strings, -⟩ := reanalyzed_explored sized free alive filed fuel
  obtain ⟨told_eq, functions, strings'⟩ := reanalysis_again sized free alive filed fuel fuel'
  refine ⟨nothing, functions, ?_, fun event member => ?_, fun a => ?_⟩
  · rw [strings', strings, Sweep.renewAll_again filed]
  · exact Sweep.isOfString_of_renewAll (Sweep.renewAll_filed filed)
      (by rw [← told_eq]; exact member)
  · show (∃ event ∈ (reanalysis (fuel' + 1)).changes after, event.IsOfString a) ↔ _
    rw [told_eq, Sweep.tells_again_iff filed, contested_iff sized]

/-- The segments of a layer do not overlap, so strings are contested between an automatic segment
and a user's. -/
theorem Contested.layers {s : Space} (sound : s.map.Sound) {a : Word} (contested : s.Contested a) :
    ∃ t ∈ s.map.autoSegments.values, ∃ u ∈ s.map.userSegments.values,
      holdsStrings t = true ∧ holdsStrings u = true ∧ t.contains a = true ∧
        u.contains a = true := by
  obtain ⟨t, member, u, member', holds, holds', inside, inside', differ⟩ := contested
  have found {layer : SegmentLayer} (sound : layer.Sound) {t : Segment} (member : t ∈ layer.values)
      (inside : (AddressRange.ofLength t.start t.length).contains a = true) :
      layer.at? a = some t := by
    obtain ⟨start, held⟩ := (Table.mem_values_iff _ t).1 member
    have ordered := UInt64.le_iff_toNat_le.1 (sound.wellFormed held).ordered
    have length : t.length.toNat = t.stop.toNat - t.start.toNat := (Word.sub?_of_le ordered).2
    obtain rfl := sound.filed held
    obtain ⟨reached, below⟩ := AddressRange.contains_iff.1 inside
    have below := UInt64.lt_iff_toNat_lt.1 below
    simp only [AddressRange.ofLength, Word.toNat_addCapped] at below
    exact (SegmentLayer.at?_eq_some_iff sound.spaced).2
      ⟨held, reached, UInt64.lt_iff_toNat_lt.2 (by omega)⟩
  -- Within a layer the two are the same segment, which does not differ from itself.
  have apart {layer : SegmentLayer} (sound : layer.Sound) (member : t ∈ layer.values)
      (member' : u ∈ layer.values) : False := by
    obtain rfl := Option.some.inj ((found sound member inside).symm.trans
      (found sound member' inside'))
    exact differ rfl
  have covers {layer : SegmentLayer} (sound : layer.Sound) {t : Segment} (member : t ∈ layer.values)
      (inside : (AddressRange.ofLength t.start t.length).contains a = true) :
      t.contains a = true :=
    Segment.contains_iff.2
      ((SegmentLayer.at?_eq_some_iff sound.spaced).1 (found sound member inside)).2
  rcases List.mem_append.1 (List.mem_mergeSort.1 member) with user | auto <;>
    rcases List.mem_append.1 (List.mem_mergeSort.1 member') with user' | auto'
  · exact (apart sound.user user user').elim
  · exact ⟨u, auto', t, user, holds', holds, covers sound.auto auto' inside',
      covers sound.user user inside⟩
  · exact ⟨t, auto, u, user', holds, holds', covers sound.auto auto inside,
      covers sound.user user' inside'⟩
  · exact (apart sound.auto auto auto').elim

def calledSegment : Segment := ⟨1, ⟨0x10, 0x18⟩, 0, 8, .ofBits 7, true, []⟩

def longTextSegment : Segment := ⟨2, ⟨0x20, 0x28⟩, 8, 8, .ofBits 4, true, []⟩

/-- Over the second half of the text. -/
def nestedTextSegment : Segment := ⟨3, ⟨0x24, 0x28⟩, 12, 4, .ofBits 4, false, []⟩

def nestedTextSnapshot : Snapshot :=
  { ListingCursor.writtenSnapshot "Mapped"
      [calledSegment, longTextSegment, nestedTextSegment] .empty with
    entryPoints := [0x10]
    contents := [4, 2, 1, 0, 4, 0xfa, 1, 0, 0x54, 0x45, 0x58, 0x54, 0x54, 0x45, 0x58, 0x54] }

/-- Two functions that call each other, of which the first one is known, and a text of eight
characters. The user has put a segment of its own over the second half of the text. -/
def nestedTextSpace : Space where
  backend := .mapped ""
  storage := ⟨.memory, nestedTextSnapshot.contents, .ofRuns []⟩
  map := ⟨.insert (.insert .empty 0x10 calledSegment) 0x20
      longTextSegment,
    .insert .empty 0x24 nestedTextSegment, .empty, .empty, 3⟩
  metadata := .empty
  functions := { FunctionTable.empty.addAll [0x10] true with entryPoints := [0x10] }
  undoLog := .empty
  scheduler := Scheduler.initial.schedule
  architecture := some Toy.little
  config := {}
  parentView := some "Raw"
  bulk := ⟨0, []⟩
  idsMade := 0

theorem nestedTextSpace_reachable : nestedTextSpace.Reachable := by
  have fits : nestedTextSpace.Fits := fun _ => ⟨by decide, by decide⟩
  have restored : Reachable { nestedTextSpace with architecture := none } :=
    .restored (show nestedTextSnapshot.restore .standard = _ from rfl) fits
  exact .edited restored (.setArchitecture (some Toy.little)) (.last (.done fits))

theorem nestedTextSpace_sound : nestedTextSpace.map.Sound := by
  have code : Segment.ofLayout 0x10 8 0 8 (.ofBits 7) true =
      .ok ⟨0, ⟨0x10, 0x18⟩, 0, 8, .ofBits 7, true, []⟩ := rfl
  have text : Segment.ofLayout 0x20 8 8 8 (.ofBits 4) true =
      .ok ⟨0, ⟨0x20, 0x28⟩, 8, 8, .ofBits 4, true, []⟩ := rfl
  have half : Segment.ofLayout 0x24 4 12 4 (.ofBits 4) false =
      .ok ⟨0, ⟨0x24, 0x28⟩, 12, 4, .ofBits 4, false, []⟩ := rfl
  exact SegmentMap.built_sound (.add (.add (.add .empty code rfl) text rfl) half rfl)

theorem nestedTextSpace_sized : windowSize? nestedTextSpace.config = some 0x10000 := by decide

/-- From its own segment the second half is a string, which the other segment does not show. -/
theorem nestedTextSpace_contested (a : Word) : nestedTextSpace.Contested a ↔ a = 0x24 := by
  have whole (segment : Segment) (forward : segment.start ≤ segment.stop) :
      nestedTextSpace.segmentStrings segment = nestedTextSpace.wholeStrings segment :=
    segmentStrings_scanned nestedTextSpace_sound (fun _ _ => rfl) forward (by decide)
      nestedTextSpace_sized
  have text : nestedTextSpace.segmentStrings longTextSegment =
      [⟨.ascii, 0x20, 8⟩] :=
    (whole _ (by decide)).trans (StringScan.scan_of_ascending (by decide +kernel) (by decide))
  have half : nestedTextSpace.segmentStrings nestedTextSegment =
      [⟨.ascii, 0x24, 4⟩] :=
    (whole _ (by decide)).trans (StringScan.scan_of_ascending (by decide +kernel) (by decide))
  have searched (t : Segment) (holds : holdsStrings t = true)
      (member : t ∈ nestedTextSpace.map.segments) :
      t = longTextSegment ∨
        t = nestedTextSegment := by
    have all : nestedTextSpace.map.allSegments = [nestedTextSegment,
      calledSegment,
      longTextSegment] := rfl
    rw [SegmentMap.segments, List.mem_mergeSort, all] at member
    simp only [List.mem_cons, List.not_mem_nil, or_false] at member
    rcases member with rfl | rfl | rfl
    · exact .inr rfl
    · cases holds
    · exact .inl rfl
  -- The first string begins in front of the second segment.
  have alone {b : Word} (other : b ≠ 0x24)
      (inside : (AddressRange.ofLength 0x24 4).contains b = true) :
      [(⟨.ascii, 0x20, 8⟩ : StringReference)].find? (·.start == b) =
        [(⟨.ascii, 0x24, 4⟩ : StringReference)].find? (·.start == b) := by
    have behind : (0x24 : Word) ≤ b := (AddressRange.contains_iff.1 inside).1
    have apart : (0x20 : Word) ≠ b := by
      rintro rfl
      exact absurd behind (by decide)
    simp [apart, other.symm]
  constructor
  · rintro ⟨t, member, u, member', holds, holds', inside, inside', differ⟩
    by_contra other
    rcases searched t holds member with rfl | rfl <;>
      rcases searched u holds' member' with rfl | rfl
    · exact differ rfl
    · rw [text, half] at differ
      exact differ (alone other inside')
    · rw [text, half] at differ
      exact differ (alone other inside).symm
    · exact differ rfl
  · rintro rfl
    refine ⟨longTextSegment, List.mem_mergeSort.2 (by decide),
      nestedTextSegment, List.mem_mergeSort.2 (by decide),
      by decide, by decide, by decide, by decide, ?_⟩
    rw [text, half]
    decide

theorem nestedTextSpace_filed : nestedTextSpace.metadata.strings.FiledBy (·.start) :=
  fun _ _ held => nomatch held

theorem nested_text_analyzed_twice :
    nestedTextSpace.scheduler.held = false ∧ nestedTextSpace.scheduler.stopped = false ∧
    nestedTextSpace.metadata.strings.FiledBy (·.start) ∧
    windowSize? nestedTextSpace.config = some 0x10000 ∧
    (nestedTextSpace.reanalyzed 1).functions.queue = .empty ∧
    ((nestedTextSpace.reanalyzed 1).reanalyzed 1).functions =
      (nestedTextSpace.reanalyzed 1).functions ∧
    ((nestedTextSpace.reanalyzed 1).reanalyzed 1).metadata.strings =
      (nestedTextSpace.reanalyzed 1).metadata.strings ∧
    ∀ a, (∃ event ∈ (reanalysis 1).changes (nestedTextSpace.reanalyzed 1),
      event.IsOfString a) ↔ a = 0x24 := by
  obtain ⟨nothing, functions, strings, -, told⟩ :=
    reanalyzed_twice rfl rfl nestedTextSpace_filed nestedTextSpace_sized 0 0
  exact ⟨rfl, rfl, nestedTextSpace_filed, nestedTextSpace_sized, nothing, functions, strings,
    fun a => (told a).trans (nestedTextSpace_contested a)⟩

/-- The second half of the text is reported again though nothing has changed. -/
theorem nested_text_told_again :
    nestedTextSpace.Reachable ∧ nestedTextSpace.architecture = some Toy.little ∧
    nestedTextSpace.scheduler.held = false ∧ nestedTextSpace.scheduler.stopped = false ∧
    (nestedTextSpace.reanalyzed 1).functions.queue = .empty ∧
    ∃ event ∈ (reanalysis 1).changes (nestedTextSpace.reanalyzed 1), event.IsOfString 0x24 := by
  obtain ⟨nothing, -⟩ := reanalyzed_explored nestedTextSpace_sized rfl rfl nestedTextSpace_filed 0
  obtain ⟨told, -⟩ := reanalysis_again nestedTextSpace_sized rfl rfl nestedTextSpace_filed 0 0
  refine ⟨nestedTextSpace_reachable, rfl, rfl, rfl, nothing, ?_⟩
  rw [told, Sweep.tells_again_iff nestedTextSpace_filed, ← contested_iff]
  exact (nestedTextSpace_contested 0x24).2 rfl

end Space

end BinaryAtlas
