import BinaryAtlas.Decoder.Toy
import BinaryAtlas.Proofs.Analysis.Exploring
import BinaryAtlas.Proofs.Analysis.Running
import BinaryAtlas.Proofs.Strings.Windows

/-!
Where a run of analysis comes to its end. It has then analysed what was queued and what it added on
its way, each once, and wherever these functions call there is a function.
-/

set_option autoImplicit false

namespace BinaryAtlas

namespace Space

open Op

theorem contains_enrol (s : Space) (a query : Word) :
    (s.enrol a).functions.functions.contains query =
      (decide (query = a) && s.isValid a || s.functions.functions.contains query) := by
  unfold enrol
  split
  · rename_i new
    simp only [Bool.and_eq_true] at new
    simp only [FunctionTable.contains_add, new, Bool.and_true]
  · rename_i old
    by_cases same : query = a
    · subst same
      cases valid : s.isValid query <;> simp_all
    · simp [same]

theorem ground_enrol (s : Space) (a : Word) : (s.enrol a).ground = s.ground := by
  unfold enrol
  split <;> rfl

theorem contains_enrols {starts : List Word} {s : Space} {a : Word}
    (wanted : a ∈ starts ∧ s.isValid a = true ∨ s.functions.functions.contains a = true) :
    (starts.foldl enrol s).functions.functions.contains a = true := by
  induction starts generalizing s with
  | nil => simpa using wanted
  | cons first rest ih =>
    refine ih ?_
    rw [contains_enrol, isValid_ground (ground_enrol s first)]
    rcases wanted with ⟨member, valid⟩ | held
    · rcases List.mem_cons.1 member with rfl | member
      · exact .inr (by simp [valid])
      · exact .inl ⟨member, valid⟩
    · exact .inr (by simp [held])

/-- A run that began at `origin` has come to `s`: the functions of `seen` are done, in that order,
and those of `taken` are taken up. `found` is what there is to find out about each. -/
structure Progress (found : Word → Discovery) (origin s : Space) (seen taken : List Word) :
    Prop where
  ground : s.ground = origin.ground
  running : s.scheduler.aborted = false
  requested : s.scheduler.requested = origin.scheduler.requested
  counted : ∀ x, Scheduler.countOf s.scheduler.updates x =
    Scheduler.countOf origin.scheduler.updates x + (seen ++ taken).count x
  once : (seen ++ taken).Nodup
  apart : ∀ x ∈ seen ++ taken, s.functions.queue.contains x = false
  /-- Nothing comes into the queue but what was there and what is new. -/
  due : ∀ x, (x ∈ seen ++ taken ∨ s.functions.queue.contains x = true) ↔
    origin.functions.queue.contains x = true ∨
      s.functions.functions.contains x = true ∧ origin.functions.functions.contains x = false
  known : ∀ x, x ∈ seen ++ taken ∨ s.functions.queue.contains x = true →
    s.functions.functions.contains x = true
  stays : ∀ x, origin.functions.functions.contains x = true →
    s.functions.functions.contains x = true
  learned : ∀ x ∈ seen, ∃ f : Function, s.functions.functions.get? x = some (f.informed (found x))
  referred : s.metadata = seen.foldl (fun m x => m.refer (found x)) origin.metadata

namespace Progress

variable {found : Word → Discovery} {origin s : Space} {seen taken : List Word}

theorem start (running : s.scheduler.aborted = false) (queued : ∀ x,
    s.functions.queue.contains x = true → s.functions.functions.contains x = true) :
    Progress found s s [] [] := by
  constructor <;> simp_all

/-- Adding a function puts it into the queue, unless it was known. -/
theorem enrol (progress : Progress found origin s seen taken) (a : Word) :
    Progress found origin (s.enrol a) seen taken := by
  unfold Space.enrol
  split
  · rename_i new
    simp only [Bool.and_eq_true, Bool.not_eq_true'] at new
    obtain ⟨-, new⟩ := new
    have old : origin.functions.functions.contains a = false := by
      by_contra held
      rw [progress.stays a (by simpa using held)] at new
      cases new
    have outside : a ∉ seen ++ taken := fun member => by
      rw [progress.known a (.inl member)] at new
      cases new
    have queue := FunctionTable.queued_add s.functions a true new
    have functions := FunctionTable.contains_add s.functions a
    constructor
    case ground => exact progress.ground
    case running => exact progress.running
    case requested => exact progress.requested
    case counted => exact progress.counted
    case once => exact progress.once
    case apart =>
      intro x member
      simp only [queue, Table.contains_insert]
      have := progress.apart x member
      have : x ≠ a := fun same => outside (same ▸ member)
      simp_all
    case due =>
      intro x
      simp only [queue, Table.contains_insert, functions]
      have := progress.due x
      by_cases same : x = a
      · simp [same, old]
      · simpa [same] using this
    case known =>
      intro x
      simp only [queue, Table.contains_insert, functions]
      have := progress.known x
      by_cases same : x = a
      · simp [same]
      · simpa [same] using this
    case stays =>
      intro x held
      simp only [functions, progress.stays x held, Bool.or_true]
    case learned =>
      intro x member
      obtain ⟨f, held⟩ := progress.learned x member
      refine ⟨f, ?_⟩
      have kept := FunctionTable.get?_addAll s.functions [a] true x
      rw [held] at kept
      exact kept
    case referred => exact progress.referred
  · exact progress

theorem enrols (progress : Progress found origin s seen taken) (starts : List Word) :
    Progress found origin (starts.foldl Space.enrol s) seen taken := by
  induction starts generalizing s with
  | nil => exact progress
  | cons a rest ih => exact ih (progress.enrol a)

/-- What was found about the next function is taken over. -/
theorem inform {x : Word} (progress : Progress found origin s seen (x :: taken))
    (own : (found x).start = x) :
    Progress found origin (s.informed (found x)) (seen ++ [x]) taken := by
  have same_words : seen ++ x :: taken = seen ++ [x] ++ taken := by simp
  obtain ⟨f, held⟩ := (Table.contains_iff _ _).1 (progress.known x (.inl (by simp)))
  have contained (y : Word) : (s.functions.functions.insert x (f.informed (found x))).contains y =
      s.functions.functions.contains y := by
    rw [Table.contains_insert]
    by_cases same : y = x
    · subst same
      simp [Table.contains, held]
    · simp [same]
  have fresh : x ∉ seen := fun before =>
    (List.nodup_append.1 progress.once).2.2 x before x List.mem_cons_self rfl
  unfold Space.informed
  rw [own, held]
  -- Apart from the functions it calls, which come last, only its own record is written.
  refine Progress.enrols ?_ _
  constructor
  case ground => exact progress.ground
  case running => exact progress.running
  case requested => exact progress.requested
  case counted => simpa only [same_words] using progress.counted
  case once => simpa only [same_words] using progress.once
  case apart => simpa only [same_words] using progress.apart
  case due => simpa only [same_words, contained] using progress.due
  case known => simpa only [same_words, contained] using progress.known
  case stays => simpa only [contained] using progress.stays
  case learned =>
    intro y member
    rcases List.mem_append.1 member with before | here
    · obtain ⟨g, earlier⟩ := progress.learned y before
      have other : y ≠ x := fun same => fresh (same ▸ before)
      exact ⟨g, (Table.get?_insert_of_ne _ _ other).trans earlier⟩
    · obtain rfl := List.mem_singleton.1 here
      exact ⟨f, Table.get?_insert_self _ _ _⟩
  case referred =>
    rw [List.foldl_append, ← progress.referred]
    rfl

theorem done {x : Word} (progress : Progress found origin s seen (x :: taken))
    (own : (found x).start = x) :
    Progress found origin (s.done (found x)) (seen ++ [x]) taken := by
  have informed := progress.inform own
  exact ⟨informed.ground, informed.running, informed.requested, informed.counted, informed.once,
    informed.apart, informed.due, informed.known, informed.stays, informed.learned,
    informed.referred⟩

theorem batch (progress : Progress found origin s seen taken)
    (own : ∀ x, (found x).start = x) :
    Progress found origin ((taken.map found).foldl Space.done s) (seen ++ taken) [] := by
  induction taken generalizing s seen with
  | nil => simpa using progress
  | cons x rest ih => simpa using ih (progress.done (own x))

/-- All that waits is taken up. -/
theorem begin (progress : Progress found origin s seen []) :
    Progress found origin s.begun seen s.functions.queue.keys := by
  have queued (x : Word) : x ∈ s.functions.queue.keys ↔ s.functions.queue.contains x = true :=
    Table.mem_keys_iff_contains _ x
  constructor
  case ground => exact progress.ground
  case running => simpa [begun] using progress.running
  case requested => simpa [begun] using progress.requested
  case counted =>
    intro x
    have before := progress.counted x
    simp only [begun, Scheduler.updates_setPhase, Scheduler.countOf_explored]
    simp only [List.append_nil] at before
    rw [before, List.count_append, Nat.add_assoc]
  case once =>
    refine List.nodup_append.2 ⟨by simpa using progress.once, s.functions.queue.keys_nodup, ?_⟩
    rintro x member y waiting rfl
    have := progress.apart x (by simpa using member)
    rw [(queued x).1 waiting] at this
    cases this
  case apart => exact fun x member => rfl
  case due =>
    intro x
    have before := progress.due x
    simp only [List.append_nil, ← queued] at before
    simpa [begun, Table.contains] using before
  case known =>
    intro x
    have before := progress.known x
    simp only [List.append_nil, ← queued] at before
    simpa [begun, Table.contains] using before
  case stays => exact progress.stays
  case learned => exact progress.learned
  case referred => exact progress.referred

end Progress

/-- Where the function at `x` calls there are functions, if those places are valid. -/
def CallsMet (found : Word → Discovery) (origin s : Space) (x : Word) : Prop :=
  ∀ call ∈ (found x).calls, origin.isValid call.2 = true →
    s.functions.functions.contains call.2 = true

theorem contains_informed {s : Space} {found : Discovery} {a : Word}
    (held : s.functions.functions.contains a = true) :
    (s.informed found).functions.functions.contains a = true := by
  unfold informed
  split
  · exact held
  · refine contains_enrols (.inr ?_)
    simp only [Table.contains_insert, held, Bool.or_true]

theorem callsMet_done {found : Word → Discovery} {origin s : Space} {x : Word}
    (ground : s.ground = origin.ground) (own : (found x).start = x)
    (known : s.functions.functions.contains x = true) :
    CallsMet found origin (s.done (found x)) x := by
  intro call member valid
  obtain ⟨f, held⟩ := (Table.contains_iff _ _).1 known
  show (s.informed (found x)).functions.functions.contains call.2 = true
  unfold informed
  rw [own, held]
  refine contains_enrols (.inl ⟨?_, ?_⟩)
  · exact (FunctionTable.mem_sortedSet _ _).2 (List.mem_map_of_mem member)
  · rw [← valid]
    exact isValid_ground ground call.2

theorem callsMet_batch {found : Word → Discovery} {origin s : Space} {seen taken : List Word}
    (progress : Progress found origin s seen taken) (own : ∀ x, (found x).start = x)
    (closed : ∀ x ∈ seen, CallsMet found origin s x) :
    ∀ x ∈ seen ++ taken, CallsMet found origin ((taken.map found).foldl Space.done s) x := by
  induction taken generalizing s seen with
  | nil => simpa using closed
  | cons first rest ih =>
    have known := progress.known first (.inl (by simp))
    have later := ih (progress.done (own first)) fun x member => by
      rcases List.mem_append.1 member with before | here
      · exact fun call called valid => contains_informed (closed x before call called valid)
      · obtain rfl := List.mem_singleton.1 here
        exact callsMet_done progress.ground (own x) known
    simpa using later

/-- Working off the queue comes to its end: each batch has functions that were not analysed before,
and there is no more than one for each address. -/
theorem analyzeQueue_finishes (architecture : Option Architecture) (limits : ExploreLimits)
    {origin s : Space} {seen : List Word}
    (progress : Progress (origin.discovery architecture limits) origin s seen [])
    (closed : ∀ x ∈ seen, CallsMet (origin.discovery architecture limits) origin s x) (fuel : Nat)
    (enough : 0x10000000000000000 < fuel + seen.length) :
    ((analyzeQueue architecture limits fuel) s).collect.2.1 = true ∧
      ((analyzeQueue architecture limits fuel) s).collect.2.2.functions.queue = .empty ∧
      ∃ all, Progress (origin.discovery architecture limits) origin
          ((analyzeQueue architecture limits fuel) s).collect.2.2 all [] ∧
        ∀ x ∈ all, CallsMet (origin.discovery architecture limits) origin
          ((analyzeQueue architecture limits fuel) s).collect.2.2 x := by
  induction fuel generalizing s seen with
  | zero =>
    have := Table.words_length_le (by simpa using progress.once : seen.Nodup)
    omega
  | succ fuel ih =>
    cases waiting : s.functions.queue.keys.isEmpty with
    | true =>
      rw [collect_analyzeQueue_empty architecture limits fuel s waiting]
      have nothing : s.functions.queue = .empty :=
        Table.ext_entries (by simpa [Table.keys, Table.empty] using waiting)
      refine ⟨rfl, rfl, seen, ?_, closed⟩
      rw [← nothing]
      exact progress
    | false =>
      have own := origin.start_discovery architecture limits
      have same : s.discovery architecture limits = origin.discovery architecture limits :=
        funext fun x => discovery_ground progress.ground architecture limits x
      rw [collect_analyzeQueue_succ architecture limits fuel s progress.running waiting, same]
      refine ih (progress.begin.batch own) (callsMet_batch progress.begin own closed) ?_
      have : 0 < s.functions.queue.keys.length := by
        cases keys : s.functions.queue.keys with
        | nil => simp [keys] at waiting
        | cons => simp
      rw [List.length_append]
      omega

/-- What the search for strings leaves as it is. -/
def besidesStrings (s : Space) :=
  (s.ground, s.functions, s.scheduler, s.metadata.outgoing, s.metadata.incoming)

theorem findStrings_besides (segments : List Segment) :
    Keeps besidesStrings (findStrings segments) := by
  refine keeps_forEach (fun segment => keeps_bind (keeps_read _) fun aborted => ?_) segments
  split
  · exact keeps_bind (keeps_read _) fun found => keeps_bind (keeps_read _) fun _ =>
      keeps_bind (keeps_modify fun _ => rfl) fun _ =>
        keeps_forEach (keeps_tell fun _ _ => rfl) _
  · exact keeps_pure ()

def exploreLimits (s : Space) : ExploreLimits :=
  ⟨s.config.analysis.maxFunctionSize, s.config.analysis.maxBlocksPerFunction.toNat⟩

/-- After the queue the strings are looked for, and the rest stays as it is. -/
theorem collect_analysisPass {s worked : Space}
    (finished : ((analyzeQueue s.architecture s.exploreLimits batchFuel) s).collect.2 =
      (true, worked)) (running : worked.scheduler.aborted = false) :
    besidesStrings (analysisPass s).collect.2.2 =
      besidesStrings { worked with scheduler := worked.scheduler.setPhase .extended 0 } := by
  unfold analysisPass
  rw [collect_read_bind, collect_read_bind, collect_bind]
  change besidesStrings (((if ((analyzeQueue s.architecture s.exploreLimits
    batchFuel) s).collect.2.1 = true then _ else _ : Op Unit)
      ((analyzeQueue s.architecture s.exploreLimits batchFuel) s).collect.2.2).collect.2.2) = _
  rw [finished, if_pos rfl]
  unfold isAborted
  rw [collect_read_bind, running]
  simp only [Bool.not_false, if_true]
  rw [collect_editScheduler_bind, collect_read_bind, findStrings_besides]

/-- A run from one space to another has to analyse the function at an address: it was queued, or the
run added it. -/
def isDue (origin after : Space) (x : Word) : Bool :=
  origin.functions.queue.contains x ||
    after.functions.functions.contains x && !origin.functions.functions.contains x

theorem add_queued {t : FunctionTable} (queued : ∀ x, t.queue.contains x = true →
      t.functions.contains x = true) (start : Word) (auto : Bool) (x : Word)
    (waiting : (t.add start auto).1.queue.contains x = true) :
    (t.add start auto).1.functions.contains x = true := by
  rw [FunctionTable.contains_add]
  cases known : t.functions.contains start with
  | true =>
    rw [FunctionTable.add_known t start auto known] at waiting
    simp [queued x waiting]
  | false =>
    rw [FunctionTable.queued_add t start auto known, Table.contains_insert] at waiting
    by_cases here : x = start
    · simp [here]
    · rw [decide_eq_false here, Bool.false_or] at waiting ⊢
      exact queued x waiting

theorem addAll_queued {t : FunctionTable} (queued : ∀ x, t.queue.contains x = true →
      t.functions.contains x = true) (starts : List Word) (auto : Bool) :
    ∀ x, (t.addAll starts auto).queue.contains x = true →
      (t.addAll starts auto).functions.contains x = true := by
  unfold FunctionTable.addAll
  induction starts generalizing t with
  | nil => exact queued
  | cons start rest ih => exact ih (add_queued queued start auto)

/-- A space of code in which some functions are known. -/
def codeSpace (start : Word) (code : List UInt8) (functions : List Word) : Space where
  backend := .mapped ""
  storage := ⟨.memory, code, .ofRuns []⟩
  map := ⟨.insert .empty start ⟨1, ⟨start, start + .ofNat code.length⟩, 0, .ofNat code.length,
    .ofBits 7, true, []⟩, .empty, .empty, .empty, 1⟩
  metadata := .empty
  functions := FunctionTable.empty.addAll functions true
  undoLog := .empty
  scheduler := .initial
  architecture := some Toy.little
  config := {}
  parentView := some "Raw"
  bulk := ⟨0, []⟩
  idsMade := 0

theorem codeSpace_queued (start : Word) (code : List UInt8) (functions : List Word) (x : Word)
    (waiting : (codeSpace start code functions).functions.queue.contains x = true) :
    (codeSpace start code functions).functions.functions.contains x = true :=
  addAll_queued (fun x nothing => by simp [FunctionTable.empty, Table.contains] at nothing)
    functions true x waiting

/-- Two functions that call each other, of which the first one is known. -/
def callingSpace : Space := codeSpace 0x10 [4, 2, 1, 0, 4, 0xfa, 1, 0] [0x10]

end Space

end BinaryAtlas
