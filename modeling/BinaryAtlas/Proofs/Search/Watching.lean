import BinaryAtlas.Proofs.Search.Lines
import BinaryAtlas.Proofs.Snapshot.Restoring

/-!
Watching a search. Whoever watches is told of matches and of progress in turn, is heard with each
answer, and is not called again after a refusal. Both kinds of search go their way in steps that do
not depend on who watches, so what holds of calls is shown of such steps once.
-/

set_option autoImplicit false

namespace BinaryAtlas

/-- A call of a watcher, with the answer. -/
inductive SearchCall where
  | matched (m : SearchMatch) (more : Bool)
  | progressed (done total : Word) (more : Bool)
  deriving DecidableEq, Inhabited

namespace SearchCall

def more : SearchCall → Bool
  | matched _ more | progressed _ _ more => more

def match? : SearchCall → Option SearchMatch
  | matched m _ => some m
  | progressed _ _ _ => none

def progress? : SearchCall → Option (Word × Word)
  | matched _ _ => none
  | progressed done total _ => some (done, total)

end SearchCall

/-- The same watcher with a journal of its calls. -/
def SearchWatcher.journaled {σ : Type} (watcher : SearchWatcher σ) :
    SearchWatcher (σ × List SearchCall) where
  onMatch m kept :=
    let answer := watcher.onMatch m kept.1
    ((answer.1, kept.2 ++ [.matched m answer.2]), answer.2)
  onProgress done total kept :=
    let answer := watcher.onProgress done total kept.1
    ((answer.1, kept.2 ++ [.progressed done total answer.2]), answer.2)

namespace Search

/-- What a search does at one place of its way: it tells of matches, and then how far it is. -/
structure ScanStep where
  hits : List SearchMatch
  position : Word

section Playing

variable {σ : Type} (stop : Word) (watcher : SearchWatcher σ)

def ScanStep.take (step : ScanStep) (later : ProgressMeter → Bool → σ → Bool × σ)
    (meter : ProgressMeter) (found : Bool) (state : σ) : Bool × σ :=
  let told := tellMatches watcher step.hits state
  let reported := meter.report watcher step.position told.1
  if told.2 then
    if reported.2.2 then later reported.1 (found || !step.hits.isEmpty) reported.2.1
    else (found || !step.hits.isEmpty, reported.2.1)
  else (true, told.1)

/-- A search that goes by known steps. -/
def play : List ScanStep → ProgressMeter → Bool → σ → Bool × σ
  | [], meter, found, state => (found, (meter.report watcher stop state).2.1)
  | step :: rest, meter, found, state => step.take watcher (play rest) meter found state

variable {stop watcher}

variable (watcher) in
theorem tellMatches_journaled (hits : List SearchMatch) (kept : σ × List SearchCall) :
    (tellMatches watcher.journaled hits kept).1.1 = (tellMatches watcher hits kept.1).1 ∧
      (tellMatches watcher.journaled hits kept).2 = (tellMatches watcher hits kept.1).2 := by
  induction hits generalizing kept with
  | nil => exact ⟨rfl, rfl⟩
  | cons m rest ih =>
    unfold tellMatches
    simp only [SearchWatcher.journaled]
    cases watcher.onMatch m kept.1 with
    | mk state more =>
      cases more with
      | false => exact ⟨rfl, rfl⟩
      | true => exact ih _

variable (watcher) in
theorem report_journaled (meter : ProgressMeter) (position : Word) (kept : σ × List SearchCall) :
    (meter.report watcher.journaled position kept).1 = (meter.report watcher position kept.1).1 ∧
      (meter.report watcher.journaled position kept).2.1.1 =
        (meter.report watcher position kept.1).2.1 ∧
      (meter.report watcher.journaled position kept).2.2 =
        (meter.report watcher position kept.1).2.2 := by
  unfold ProgressMeter.report
  split <;> exact ⟨rfl, rfl, rfl⟩

variable (stop watcher) in
/-- Keeping a journal changes nothing else. -/
theorem play_journaled (steps : List ScanStep) (meter : ProgressMeter) (found : Bool)
    (kept : σ × List SearchCall) :
    (play stop watcher.journaled steps meter found kept).1 =
        (play stop watcher steps meter found kept.1).1 ∧
      (play stop watcher.journaled steps meter found kept).2.1 =
        (play stop watcher steps meter found kept.1).2 := by
  induction steps generalizing meter found kept with
  | nil => exact ⟨rfl, (report_journaled watcher meter stop kept).2.1⟩
  | cons step rest ih =>
    obtain ⟨state, more⟩ := tellMatches_journaled watcher step.hits kept
    obtain ⟨last, progressed, goes⟩ := report_journaled watcher meter step.position
      (tellMatches watcher.journaled step.hits kept).1
    rw [state] at last progressed goes
    simp only [play, ScanStep.take, more, goes]
    split
    · split
      · rw [← last, ← progressed]
        exact ih _ _ _
      · exact ⟨rfl, progressed⟩
    · exact ⟨rfl, state⟩

/-- Whoever keeps all matches has those of all steps in the end. -/
theorem play_keepMatches (steps : List ScanStep) (meter : ProgressMeter) (found : Bool)
    (kept : List SearchMatch) :
    (play stop (Space.keepMatches none) steps meter found kept).2 =
      kept ++ steps.flatMap (·.hits) := by
  have collects := keepMatches_collects none
  induction steps generalizing meter found kept with
  | nil =>
    simp only [play, List.flatMap_nil, List.append_nil]
    exact (report_eq collects meter stop kept).1
  | cons step rest ih =>
    have endless {count : Nat} : Room none count := by rintro k ⟨⟩
    obtain ⟨told, goes⟩ := tellMatches_eq collects step.hits kept endless
    have told : (tellMatches (Space.keepMatches none) step.hits kept).1 = kept ++ step.hits := told
    obtain ⟨same, on⟩ := report_eq collects meter step.position (kept ++ step.hits)
    have same : (meter.report (Space.keepMatches none) step.position (kept ++ step.hits)).2.1 =
        kept ++ step.hits := same
    simp only [play, ScanStep.take, told, goes.2 endless, on, if_true, ih, same, List.flatMap_cons,
      List.append_assoc]

end Playing

section Protocol

variable {total granularity last done : Word} {hits ahead : List SearchMatch}
  {calls : List SearchCall}

/-- What a watcher sees from a place of a search on, where the last report was of so many bytes and
these matches lie ahead. -/
structure Watched (total granularity last : Word) (ahead : List SearchMatch)
    (calls : List SearchCall) : Prop where
  /-- Only the last answer can be a refusal. -/
  obeyed : ∀ call ∈ calls.dropLast, call.more = true
  told : calls.filterMap (·.match?) <+: ahead
  measured : ∀ report ∈ calls.filterMap (·.progress?), report.1 ≤ total ∧ report.2 = total
  spaced : (last :: (calls.filterMap (·.progress?)).map (·.1)).IsChain fun earlier done =>
    earlier ≤ done ∧ (done < total → earlier.toNat + granularity.toNat ≤ done.toNat)
  finished : (∀ call ∈ calls, call.more = true) →
    calls.filterMap (·.match?) = ahead ∧
      (calls.filterMap (·.progress?)).getLast? = some (total, total)

/-- All is told, and the end is reported. -/
theorem watched_end (total granularity : Word) (within : last ≤ total) (more : Bool) :
    Watched total granularity last [] [.progressed total total more] where
  obeyed := by simp
  told := by simp [SearchCall.match?]
  measured := by simp [SearchCall.progress?]
  spaced := by simp [SearchCall.progress?, within, Std.lt_irrefl]
  finished _ := by simp [SearchCall.match?, SearchCall.progress?]

/-- At least the end is reported, if nothing is refused. -/
theorem Watched.ne_nil (watched : Watched total granularity last ahead calls) : calls ≠ [] := by
  rintro rfl
  simpa using (watched.finished (by simp)).2

theorem filterMap_matched (hits : List SearchMatch) :
    (hits.map (SearchCall.matched · true)).filterMap (·.match?) = hits ∧
      (hits.map (SearchCall.matched · true)).filterMap (·.progress?) = [] := by
  simp [List.filterMap_map, SearchCall.match?, SearchCall.progress?]

/-- The search ends with a match. -/
theorem watched_refusal {m : SearchMatch} (granted : hits ++ [m] <+: ahead) :
    Watched total granularity last ahead
      (hits.map (SearchCall.matched · true) ++ [.matched m false]) := by
  refine ⟨?_, ?_, ?_, ?_, fun all => ?_⟩
  · simp [SearchCall.more]
  · rw [List.filterMap_append, (filterMap_matched hits).1]
    exact granted
  · simp [SearchCall.progress?]
  · simp [SearchCall.progress?]
  · cases all (.matched m false) (by simp)

/-- Matches that are told and taken come before what is seen later. -/
theorem Watched.tell (watched : Watched total granularity last ahead calls)
    (hits : List SearchMatch) :
    Watched total granularity last (hits ++ ahead)
      (hits.map (SearchCall.matched · true) ++ calls) := by
  obtain ⟨told, silent⟩ := filterMap_matched hits
  refine ⟨fun call member => ?_, ?_, ?_, ?_, fun all => ?_⟩
  · rw [List.dropLast_append_of_ne_nil watched.ne_nil] at member
    rcases List.mem_append.1 member with granted | later
    · obtain ⟨m, -, rfl⟩ := List.mem_map.1 granted
      rfl
    · exact watched.obeyed call later
  · rw [List.filterMap_append, told]
    exact (List.prefix_append_right_inj hits).2 watched.told
  · rw [List.filterMap_append, silent]
    exact watched.measured
  · rw [List.filterMap_append, silent]
    exact watched.spaced
  · obtain ⟨all_told, ended⟩ := watched.finished fun call later => all call (by simp [later])
    rw [List.filterMap_append, List.filterMap_append, told, silent, all_told]
    exact ⟨rfl, ended⟩

/-- A report that comes late enough stands before what is seen from there on. -/
theorem Watched.report (watched : Watched total granularity done ahead calls)
    (within : done ≤ total) (onward : last ≤ done)
    (late : done < total → last.toNat + granularity.toNat ≤ done.toNat) :
    Watched total granularity last ahead (.progressed done total true :: calls) where
  obeyed call member := by
    rw [List.dropLast_cons_of_ne_nil watched.ne_nil] at member
    rcases List.mem_cons.1 member with rfl | later
    · rfl
    · exact watched.obeyed call later
  told := watched.told
  measured report member := by
    rcases List.mem_cons.1 member with rfl | later
    · exact ⟨within, rfl⟩
    · exact watched.measured report later
  spaced := List.isChain_cons_cons.2 ⟨⟨onward, late⟩, watched.spaced⟩
  finished all := by
    obtain ⟨all_told, ended⟩ := watched.finished fun call later => all call (by simp [later])
    refine ⟨all_told, ?_⟩
    show ((done, total) :: calls.filterMap (·.progress?)).getLast? = _
    rw [List.getLast?_cons, ended]
    rfl

/-- The search ends with a report. -/
theorem watched_dismissal (within : done ≤ total) (onward : last ≤ done)
    (late : done < total → last.toNat + granularity.toNat ≤ done.toNat) :
    Watched total granularity last ahead [.progressed done total false] where
  obeyed := by simp
  told := by simp [SearchCall.match?]
  measured := by simp [SearchCall.progress?, within]
  spaced := by simpa [SearchCall.progress?, onward] using late
  finished all := nomatch all (.progressed done total false) (by simp)

end Protocol

section Running

variable {σ : Type} {watcher : SearchWatcher σ} {start stop low : Word}

variable (watcher) in
/-- Either all matches are told and taken, or one is refused and the last to be told. -/
theorem tellMatches_journal (hits : List SearchMatch) (kept : σ × List SearchCall) :
    ((tellMatches watcher.journaled hits kept).2 = true ∧
        (tellMatches watcher.journaled hits kept).1.2 =
          kept.2 ++ hits.map (SearchCall.matched · true)) ∨
      ((tellMatches watcher.journaled hits kept).2 = false ∧
        ∃ before m after, hits = before ++ m :: after ∧
          (tellMatches watcher.journaled hits kept).1.2 =
            kept.2 ++ (before.map (SearchCall.matched · true) ++ [.matched m false])) := by
  induction hits generalizing kept with
  | nil => exact .inl ⟨rfl, (List.append_nil _).symm⟩
  | cons m rest ih =>
    unfold tellMatches
    simp only [SearchWatcher.journaled]
    cases watcher.onMatch m kept.1 with
    | mk state more =>
      cases more with
      | false => exact .inr ⟨rfl, [], m, rest, rfl, rfl⟩
      | true =>
        rcases ih (state, kept.2 ++ [.matched m true]) with
          ⟨goes, told⟩ | ⟨ends, before, last, after, rfl, told⟩
        · exact .inl ⟨goes, told.trans (by simp)⟩
        · exact .inr ⟨ends, m :: before, last, after, rfl, told.trans (by simp)⟩

variable (watcher) in
theorem report_journal (meter : ProgressMeter) (position : Word) (kept : σ × List SearchCall) :
    (meter.isDue position = false ∧
        meter.report watcher.journaled position kept = (meter, kept, true)) ∨
      (meter.isDue position = true ∧ ∃ state more, meter.report watcher.journaled position kept =
        ({ meter with last := max position meter.start },
          (state, kept.2 ++ [.progressed (meter.done position) meter.total more]), more)) := by
  unfold ProgressMeter.report
  split
  · rename_i due
    exact .inr ⟨due, _, _, rfl⟩
  · rename_i early
    exact .inl ⟨by simpa using early, rfl⟩

/-- A meter for a range with this end, whose last report came from no further than `low`. -/
structure Gauges (meter : ProgressMeter) (stop low : Word) : Prop where
  total : meter.total = stop - meter.start
  ordered : meter.start ≤ meter.last
  reached : meter.last ≤ max low meter.start
  inside : meter.last ≤ stop

namespace Gauges

variable {meter : ProgressMeter} {position : Word}

theorem raise (gauges : Gauges meter stop low) (further : low ≤ position) :
    Gauges meter stop position where
  total := gauges.total
  ordered := gauges.ordered
  reached := Std.le_trans gauges.reached
    (Std.max_le_iff.2 ⟨Std.le_trans further Std.left_le_max, Std.right_le_max⟩)
  inside := gauges.inside

/-- Also where a report comes from below the range, nothing is subtracted from less. -/
theorem done_eq (gauges : Gauges meter stop low) (within : position ≤ stop) :
    meter.done position = max position meter.start - meter.start ∧
      (meter.done position).toNat = (max position meter.start).toNat - meter.start.toNat ∧
      meter.done position ≤ meter.total := by
  have ordered := Std.le_trans gauges.ordered gauges.inside
  have top : max position meter.start ≤ stop := Std.max_le_iff.2 ⟨within, ordered⟩
  have bottom : meter.start ≤ max position meter.start := Std.right_le_max
  have whole := UInt64.toNat_sub_of_le _ _ ordered
  have part := UInt64.toNat_sub_of_le _ _ bottom
  have short : max position meter.start - meter.start ≤ meter.total := by
    rw [gauges.total, UInt64.le_iff_toNat_le, whole, part]
    exact Nat.sub_le_sub_right (UInt64.le_iff_toNat_le.1 top) _
  have done : meter.done position = max position meter.start - meter.start := by
    rw [ProgressMeter.done, Word.min_eq, if_pos short]
  exact ⟨done, done ▸ part, done ▸ short⟩

/-- Before the end, a report that is due comes late enough after the last one. -/
theorem due (gauges : Gauges meter stop low) (further : low ≤ position) (within : position ≤ stop)
    (late : meter.isDue position = true) :
    meter.last - meter.start ≤ meter.done position ∧
      (meter.done position < meter.total →
        (meter.last - meter.start).toNat + meter.granularity.toNat ≤
          (meter.done position).toNat) := by
  obtain ⟨-, done, -⟩ := gauges.done_eq within
  have reached := (gauges.raise further).reached
  have since := UInt64.toNat_sub_of_le _ _ gauges.ordered
  have ahead := UInt64.toNat_sub_of_le _ _ reached
  have ordered := UInt64.le_iff_toNat_le.1 gauges.ordered
  have onward := UInt64.le_iff_toNat_le.1 reached
  simp only [ProgressMeter.isDue, Bool.or_eq_true, decide_eq_true_eq,
    UInt64.le_iff_toNat_le] at late
  rw [UInt64.le_iff_toNat_le, UInt64.lt_iff_toNat_lt]
  omega

theorem reported (gauges : Gauges meter stop low) (within : position ≤ stop) :
    Gauges { meter with last := max position meter.start } stop position where
  total := gauges.total
  ordered := Std.right_le_max
  reached := Std.le_refl _
  inside := Std.max_le_iff.2 ⟨within, Std.le_trans gauges.ordered gauges.inside⟩

theorem ends (gauges : Gauges meter stop low) :
    meter.isDue stop = true ∧ meter.done stop = meter.total := by
  have ordered := Std.le_trans gauges.ordered gauges.inside
  have top : max stop meter.start = stop :=
    Std.le_antisymm (Std.max_le_iff.2 ⟨Std.le_refl stop, ordered⟩) Std.left_le_max
  have done : meter.done stop = meter.total := by
    rw [(gauges.done_eq (Std.le_refl stop)).1, top, gauges.total]
  exact ⟨by simp [ProgressMeter.isDue, done], done⟩

theorem within_total (gauges : Gauges meter stop low) :
    meter.last - meter.start ≤ meter.total := by
  have ordered := Std.le_trans gauges.ordered gauges.inside
  have inside := UInt64.le_iff_toNat_le.1 gauges.inside
  rw [gauges.total, UInt64.le_iff_toNat_le, UInt64.toNat_sub_of_le _ _ gauges.ordered,
    UInt64.toNat_sub_of_le _ _ ordered]
  omega

end Gauges

/-- A run adds such calls to a journal, and answers whether a match was found before or by them. -/
def Shows (total granularity last : Word) (ahead : List SearchMatch) (found : Bool)
    (journal : List SearchCall) (run : Bool × σ × List SearchCall) : Prop :=
  ∃ calls, run.2.2 = journal ++ calls ∧
    run.1 = (found || !(calls.filterMap (·.match?)).isEmpty) ∧
    Watched total granularity last ahead calls

section Shows

variable {total granularity last done : Word} {ahead : List SearchMatch} {found : Bool}
  {journal : List SearchCall} {run : Bool × σ × List SearchCall}

theorem Shows.tell {hits : List SearchMatch}
    (shows_ : Shows total granularity last ahead (found || !hits.isEmpty)
      (journal ++ hits.map (SearchCall.matched · true)) run) :
    Shows total granularity last (hits ++ ahead) found journal run := by
  obtain ⟨calls, kept, answer, watched⟩ := shows_
  refine ⟨_, kept.trans (List.append_assoc ..), answer.trans ?_, watched.tell hits⟩
  rw [List.filterMap_append, (filterMap_matched hits).1]
  cases hits <;> simp

theorem shows_refusal {hits after : List SearchMatch} {m : SearchMatch} (state : σ) :
    Shows total granularity last (hits ++ m :: after ++ ahead) found journal
      (true, state, journal ++ (hits.map (SearchCall.matched · true) ++ [.matched m false])) := by
  refine ⟨_, rfl, by simp [SearchCall.match?], watched_refusal ⟨after ++ ahead, ?_⟩⟩
  simp

theorem Shows.report
    (shows_ : Shows total granularity done ahead found
      (journal ++ [.progressed done total true]) run)
    (within : done ≤ total) (onward : last ≤ done)
    (late : done < total → last.toNat + granularity.toNat ≤ done.toNat) :
    Shows total granularity last ahead found journal run := by
  obtain ⟨calls, kept, answer, watched⟩ := shows_
  exact ⟨.progressed done total true :: calls, kept.trans (by simp), answer,
    watched.report within onward late⟩

theorem shows_dismissal (within : done ≤ total) (onward : last ≤ done)
    (late : done < total → last.toNat + granularity.toNat ≤ done.toNat) (state : σ) :
    Shows total granularity last ahead found journal
      (found, state, journal ++ [.progressed done total false]) :=
  ⟨_, rfl, by simp [SearchCall.match?], watched_dismissal within onward late⟩

end Shows

variable (watcher) in
/-- What is seen of a search that goes upwards, from any place of its way on. -/
theorem play_shows (steps : List ScanStep) (meter : ProgressMeter) (found : Bool)
    (kept : σ × List SearchCall) (rises : (low :: steps.map (·.position)).IsChain (· ≤ ·))
    (within : ∀ step ∈ steps, step.position ≤ stop) (gauges : Gauges meter stop low) :
    Shows meter.total meter.granularity (meter.last - meter.start) (steps.flatMap (·.hits)) found
      kept.2 (play stop watcher.journaled steps meter found kept) := by
  induction steps generalizing meter found kept low with
  | nil =>
    obtain ⟨due, done⟩ := gauges.ends
    obtain ⟨early, -⟩ | ⟨-, state, more, reported⟩ :=
      report_journal watcher meter stop kept
    · rw [due] at early
      cases early
    · rw [play, reported, done]
      exact ⟨_, rfl, by simp [SearchCall.match?],
        watched_end _ _ gauges.within_total more⟩
  | cons step rest ih =>
    rw [List.map_cons] at rises
    obtain ⟨further, rises⟩ := List.isChain_cons_cons.1 rises
    obtain ⟨here, within⟩ := List.forall_mem_cons.1 within
    obtain ⟨goes, told⟩ | ⟨ends, before, m, after, hits, told⟩ :=
      tellMatches_journal watcher step.hits kept
    · refine Shows.tell ?_
      rw [← told]
      simp only [play, ScanStep.take, goes, if_true]
      obtain ⟨-, reported⟩ | ⟨due, state, more, reported⟩ :=
        report_journal watcher meter step.position
          (tellMatches watcher.journaled step.hits kept).1
      · rw [reported]
        exact ih meter _ _ rises within (gauges.raise further)
      · rw [reported]
        obtain ⟨onward, late⟩ := gauges.due further here due
        obtain ⟨done, -, short⟩ := gauges.done_eq here
        cases more with
        | false => exact shows_dismissal short onward late state
        | true =>
          refine Shows.report ?_ short onward late
          rw [done]
          exact ih _ _ (state, _) rises within (gauges.reported here)
    · rw [List.flatMap_cons]
      simp only [play, ScanStep.take, ends, Bool.false_eq_true, if_false]
      generalize tellMatches watcher.journaled step.hits kept = run at told
      obtain ⟨⟨state, journal⟩, more⟩ := run
      obtain rfl : journal = _ := told
      rw [hits]
      exact shows_refusal state

end Running

section Scanning

variable {s : Space} {stop low : Word}

/-- A scan that goes by known steps, upwards from a place and within its range. -/
def Plays (stop low : Word)
    (scan : (σ : Type) → SearchWatcher σ → ProgressMeter → Bool → σ → Bool × σ) : Prop :=
  ∃ steps : List ScanStep, (low :: steps.map (·.position)).IsChain (· ≤ ·) ∧
    (∀ step ∈ steps, step.position ≤ stop) ∧
    ∀ (σ : Type) (watcher : SearchWatcher σ) (meter : ProgressMeter) (found : Bool) (state : σ),
      scan σ watcher meter found state = play stop watcher steps meter found state

variable {scan scan' later : (σ : Type) → SearchWatcher σ → ProgressMeter → Bool → σ → Bool × σ}

theorem Plays.congr (plays : Plays stop low scan)
    (same : ∀ σ watcher meter found state,
      scan' σ watcher meter found state = scan σ watcher meter found state) :
    Plays stop low scan' := by
  obtain ⟨steps, rises, within, plays⟩ := plays
  exact ⟨steps, rises, within, fun σ watcher meter found state =>
    (same σ watcher meter found state).trans (plays σ watcher meter found state)⟩

theorem plays_end (stop low : Word) : Plays stop low fun _ watcher meter found state =>
    (found, (meter.report watcher stop state).2.1) :=
  ⟨[], .singleton low, by simp, fun _ _ _ _ _ => rfl⟩

theorem Plays.step (step : ScanStep) (plays : Plays stop step.position later)
    (above : low ≤ step.position) (inside : step.position ≤ stop) :
    Plays stop low fun σ watcher => step.take watcher (later σ watcher) := by
  obtain ⟨steps, rises, within, plays⟩ := plays
  refine ⟨step :: steps, List.isChain_cons_cons.2 ⟨above, rises⟩,
    List.forall_mem_cons.2 ⟨inside, within⟩, fun σ watcher meter found state => ?_⟩
  have same : later σ watcher = play stop watcher steps :=
    funext fun meter => funext fun found => funext fun state => plays σ watcher meter found state
  simp only [same, play]

variable (stop) in
theorem scanData_plays
    (filed : ∀ {auto start g}, (s.map.layer auto).get? start = some g → g.start = start)
    {pattern : List UInt8} (nonempty : pattern ≠ []) (caseSensitive : Bool) {chunk : Word}
    (wide : min (pattern.length * 2) 0xffffffffffffffff ≤ chunk.toNat) (fuel : Nat)
    (position : Word) (above : low ≤ position) (enough : stop.toNat - position.toNat < fuel) :
    Plays stop low fun _ watcher =>
      scanData s pattern caseSensitive stop watcher chunk fuel position := by
  induction fuel generalizing position low with
  | zero => omega
  | succ fuel ih =>
    by_cases beyond : (decide (stop ≤ s.nextValid position) ||
        !s.isValid (s.nextValid position)) = true
    · refine (plays_end stop low).congr fun σ watcher meter found state => ?_
      rw [scanData, if_pos beyond]
    · have inRange := beyond
      simp only [Bool.or_eq_true, decide_eq_true_eq, Bool.not_eq_true', not_or, Std.not_le,
        Bool.not_eq_false] at inRange
      obtain ⟨before, valid⟩ := inRange
      have ahead := Space.le_nextValid filed valid
      generalize next_eq : s.nextValid position = next at before ahead beyond
      have below := UInt64.lt_iff_toNat_lt.1 before
      have from_there := UInt64.le_iff_toNat_le.1 ahead
      have := stop.toNat_lt
      generalize want_eq : min (stop - next) chunk = want
      by_cases empty : s.read next want.toNat = []
      · have one : (next + 1).toNat = next.toNat + 1 := Word.toNat_add_ofNat (i := 1) (by omega)
        have up : low ≤ next + 1 := by
          rw [UInt64.le_iff_toNat_le] at above ⊢
          omega
        refine (ih (next + 1) up (by omega)).congr fun σ watcher meter found state => ?_
        simp only [scanData, next_eq, beyond, Bool.false_eq_true, if_false, want_eq, empty,
          List.isEmpty_nil, if_true]
      · generalize advance_eq : (if (s.read next want.toNat).length == want.toNat &&
            decide (next + want < stop) then
          (s.read next want.toNat).length - (pattern.length - 1)
        else (s.read next want.toNat).length) = advance
        obtain ⟨positive, inside, -⟩ :=
          chunk_advance nonempty wide before want_eq.symm empty advance_eq.symm
        have after : (next + .ofNat advance).toNat = next.toNat + advance :=
          Word.toNat_add_ofNat (by omega)
        have up : position ≤ next + .ofNat advance := by
          rw [UInt64.le_iff_toNat_le]
          omega
        have inside : next + .ofNat advance ≤ stop := by
          rw [UInt64.le_iff_toNat_le]
          omega
        have later := ih (next + .ofNat advance) (Std.le_refl (next + .ofNat advance)) (by omega)
        let hits := chunkMatches pattern caseSensitive next (s.read next want.toNat) advance
        refine (Plays.step ⟨hits, _⟩ later (Std.le_trans above up) inside).congr
          fun σ watcher meter found state => ?_
        have some_ : (s.read next want.toNat).isEmpty = false := by simpa using empty
        simp only [scanData, next_eq, beyond, Bool.false_eq_true, if_false, want_eq, some_,
          advance_eq, ScanStep.take]
        cases tellMatches watcher hits state with
        | mk state more =>
          cases more with
          | false => rfl
          | true =>
            simp only [if_true]
            cases meter.report watcher (next + .ofNat advance) state with
            | mk meter answer =>
              obtain ⟨state, more⟩ := answer
              cases more <;> rfl

variable (stop) in
theorem scanLines_plays (walkable : s.Walkable) {settings : ListingSettings}
    (test : ListingLine → Option SearchQuery) (start : Word) (fuel : Nat) (c : ListingCursor)
    (atUnit : ListingCursor.AtUnit s settings c) (above : c.pastEnd = false → low ≤ c.address)
    (enough : stop.toNat - c.address.toNat < fuel) :
    Plays stop low fun _ watcher => scanLines s test start stop watcher fuel c := by
  induction fuel generalizing c low with
  | zero => omega
  | succ fuel ih =>
    by_cases beyond : (c.pastEnd || decide (stop ≤ c.address)) = true
    · refine (plays_end stop low).congr fun σ watcher meter found state => ?_
      rw [scanLines, if_pos beyond]
    · have inRange := beyond
      simp only [Bool.or_eq_true, decide_eq_true_eq, not_or, Std.not_le,
        Bool.not_eq_true] at inRange
      obtain ⟨left, before⟩ := inRange
      have later : Plays stop c.address fun _ watcher meter found state =>
          if (c.next s).2 then
            scanLines s test start stop watcher fuel (c.next s).1 meter found state
          else (found, (meter.report watcher stop state).2.1) := by
        cases moved : (c.next s).2 with
        | false => exact plays_end stop c.address
        | true =>
          have ahead := atUnit.next_ahead walkable moved
          refine ih (c.next s).1 (ListingCursor.atUnit_next atUnit) (fun _ => Std.le_of_lt ahead) ?_
          rw [UInt64.lt_iff_toNat_lt] at ahead before
          omega
      refine (Plays.step ⟨lineMatches test start stop c.lines, c.address⟩ later (above left)
        (Std.le_of_lt before)).congr fun σ watcher meter found state => ?_
      rw [scanLines, if_neg beyond]
      simp only [ScanStep.take]
      cases tellMatches watcher (lineMatches test start stop c.lines) state with
      | mk state more =>
        cases more with
        | false => rfl
        | true =>
          simp only [if_true]
          cases meter.report watcher c.address state with
          | mk meter answer =>
            obtain ⟨state, more⟩ := answer
            cases more with
            | false => rfl
            | true =>
              cases c.next s with
              | mk after moved => cases moved <;> rfl

end Scanning

end Search

namespace Space

open Search

variable {s : Space} {start stop : Word} {query : SearchQuery}

/-- What a watcher can rely on: it is told of the matches in turn and of progress, to the end unless
it refuses, and the answer is whether it was told of a match. -/
def KeepsProtocol {σ : Type} (s : Space) (start stop : Word) (query : SearchQuery)
    (settings : ListingSettings) (caseSensitive : Bool) (watcher : SearchWatcher σ) (state : σ) :
    Prop :=
  ∃ calls : List SearchCall,
    s.find start stop query settings caseSensitive watcher.journaled (state, []) =
      ((s.find start stop query settings caseSensitive watcher state).1,
        (s.find start stop query settings caseSensitive watcher state).2, calls) ∧
    (s.find start stop query settings caseSensitive watcher state).1 =
      !(calls.filterMap (·.match?)).isEmpty ∧
    Watched (stop - start) (max s.config.search.progressGranularity 1) 0
      (s.matchesIn start stop query settings caseSensitive) calls

/-- Whoever watches, the search goes the same way. -/
theorem find_plays (filed : s.map.Filed) (settings : ListingSettings) (caseSensitive : Bool)
    (ordered : start < stop) (nonempty : query ≠ .data [] ∧ query ≠ .text "")
    (orderly : (∃ pattern, query = .data pattern) ∨ s.Orderly) :
    ∃ low scan, Plays stop low scan ∧
      ∀ (σ : Type) (watcher : SearchWatcher σ) (state : σ),
        s.find start stop query settings caseSensitive watcher state =
          scan σ watcher (.ofRange start stop s.config.search.progressGranularity) false state := by
  have segmentsFiled {auto : Bool} {start : Word} {g : Segment}
      (held : (s.map.layer auto).get? start = some g) : g.start = start := (filed.segments held).1
  have scansLines (walkable : s.Walkable) (test : ListingLine → Option SearchQuery) :=
    scanLines_plays stop walkable test start (stop.toNat + 1)
      ((ListingCursor.ofStart s settings).seek s start) (ListingCursor.atUnit_seek rfl start)
      (fun _ => Std.le_refl _) (by omega)
  have inRange : ¬ stop ≤ start := Std.not_le_of_gt ordered
  cases query with
  | data pattern =>
    have nonempty : pattern ≠ [] := fun same => nonempty.1 (same ▸ rfl)
    have wide : min (pattern.length * 2) 0xffffffffffffffff ≤
        (max s.config.search.chunkSize (.ofNatCapped (pattern.length * 2))).toNat := by
      rw [Word.toNat_max, Word.toNat_ofNatCapped]
      omega
    have size := UInt64.toNat_sub_of_le _ _ (UInt64.le_of_lt ordered)
    refine ⟨start, _, scanData_plays stop segmentsFiled nonempty caseSensitive wide
      ((stop - start).toNat + 1) start (Std.le_refl start) (by omega), fun σ watcher state => ?_⟩
    rw [find, findData, if_neg (by simp [nonempty, inRange])]
  | text needle =>
    have nonempty : needle ≠ "" := fun same => nonempty.2 (same ▸ rfl)
    obtain ⟨pattern, other⟩ | orderly := orderly
    · cases other
    · refine ⟨_, _, scansLines ⟨orderly, segmentsFiled⟩ (matchText needle caseSensitive),
        fun σ watcher state => ?_⟩
      rw [find, if_neg nonempty, findInLines, if_neg inRange]
  | constant value =>
    obtain ⟨pattern, other⟩ | orderly := orderly
    · cases other
    · refine ⟨_, _, scansLines ⟨orderly, segmentsFiled⟩ (matchConstant value),
        fun σ watcher state => ?_⟩
      rw [find, findInLines, if_neg inRange]

open ListingCursor (fourBytes writtenSnapshot writtenSpace)

/-- Eight bytes, where progress is told after two. -/
def measuredSpace (placed : Table Word DataVariable) : Space :=
  { writtenSpace .raw .empty placed none with config := { search := { progressGranularity := 2 } } }

def measuredSnapshot (placed : Table Word DataVariable) : Snapshot :=
  { writtenSnapshot "Raw" [] placed with config := { search := { progressGranularity := 2 } } }

/-- A watcher that counts its calls and does not want more than so many. -/
def countCalls (most : Nat) : SearchWatcher Nat where
  onMatch _ count := (count + 1, decide (count + 1 < most))
  onProgress _ _ count := (count + 1, decide (count + 1 < most))

def pairVariables : Table Word DataVariable := .insert .empty 2 ⟨2, .integer 2 false, false⟩

/-- The variable at 1 is filed under 4, so that the unit there ends at 3. -/
def turnedVariables : Table Word DataVariable :=
  .insert (.insert (.insert .empty 2 ⟨2, .integer 2 false, false⟩) 3 ⟨3, .integer 5 false, false⟩) 4
    ⟨1, .integer 2 false, false⟩

end Space

end BinaryAtlas
