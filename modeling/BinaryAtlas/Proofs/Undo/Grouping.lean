import BinaryAtlas.Proofs.Undo.Histories
import Mathlib.Data.List.Induction

/-!
How a log groups what is recorded. The calls to a log fall into parts by the way their groups nest,
and every part that records something becomes one entry.
-/

set_option autoImplicit false

namespace BinaryAtlas

inductive LogCall where
  | begin
  | commit
  | record (action : UndoAction)

namespace LogCall

def apply (log : UndoLog) : LogCall → UndoLog
  | begin => log.begin
  | commit => log.commit.1
  | record action => log.record action

def action? : LogCall → Option UndoAction
  | record action => some action
  | _ => none

/-- Where calls lead, one after the other. -/
def run (calls : List LogCall) (log : UndoLog) : UndoLog := calls.foldl apply log

/-- The actions that calls record, in order. -/
def recorded (calls : List LogCall) : List UndoAction := calls.filterMap action?

/-- Calls that commit the groups they begin, and no others. -/
inductive Balanced : List LogCall → Prop where
  | nil : Balanced []
  | record {rest : List LogCall} (action : UndoAction) (balanced : Balanced rest) :
      Balanced (.record action :: rest)
  | group {inner rest : List LogCall} (inside : Balanced inner) (balanced : Balanced rest) :
      Balanced (.begin :: (inner ++ .commit :: rest))

/-- Calls that begin a group and do not commit it, perhaps with more such groups inside. -/
inductive Unclosed : List LogCall → Prop where
  | innermost {inner : List LogCall} (inside : Balanced inner) : Unclosed (.begin :: inner)
  | around {inner rest : List LogCall} (inside : Balanced inner) (unclosed : Unclosed rest) :
      Unclosed (.begin :: (inner ++ rest))

theorem run_append (front back : List LogCall) (log : UndoLog) :
    run (front ++ back) log = run back (run front log) :=
  List.foldl_append

theorem recorded_append (front back : List LogCall) :
    recorded (front ++ back) = recorded front ++ recorded back :=
  List.filterMap_append

namespace Balanced

variable {front back : List LogCall}

theorem append (first : Balanced front) (second : Balanced back) : Balanced (front ++ back) := by
  induction first with
  | nil => exact second
  | record action _ ih => exact .record action ih
  | group inside _ _ ih =>
    rw [List.cons_append, List.append_assoc]
    exact .group inside ih

/-- Inside a group, whatever is recorded is put to the group. -/
theorem run_eq {calls : List LogCall} (balanced : Balanced calls) (past : List UndoEntry)
    (group : List UndoAction) (outer : Nat) :
    run calls ⟨past, [], group, outer + 1, false⟩ =
      ⟨past, [], group ++ recorded calls, outer + 1, false⟩ := by
  induction balanced generalizing group outer with
  | nil => rw [recorded, List.filterMap_nil, List.append_nil]; rfl
  | @record rest action _ ih =>
    show run rest ⟨past, [], group ++ [action], outer + 1, false⟩ = _
    rw [ih, List.append_assoc]
    rfl
  | @group inner rest _ _ ih ih' =>
    have parts :
        recorded (.begin :: (inner ++ .commit :: rest)) = recorded inner ++ recorded rest :=
      recorded_append inner (.commit :: rest)
    show run (inner ++ .commit :: rest) ⟨past, [], group, outer + 1 + 1, false⟩ = _
    rw [run_append, ih]
    show run rest ⟨past, [], group ++ recorded inner, outer + 1, false⟩ = _
    rw [ih', parts, List.append_assoc]

end Balanced

namespace Unclosed

variable {calls : List LogCall}

theorem extend {more : List LogCall} (unclosed : Unclosed calls)
    (extends_ : ∀ {inner : List LogCall}, Balanced inner → Unclosed (.begin :: (inner ++ more))) :
    Unclosed (calls ++ more) := by
  induction unclosed with
  | innermost inside => exact extends_ inside
  | around inside _ ih =>
    rw [List.cons_append, List.append_assoc]
    exact .around inside ih

/-- A commit either ends the outermost group or one inside it. -/
theorem commit (unclosed : Unclosed calls) :
    (∃ inner, Balanced inner ∧ calls = .begin :: inner) ∨ Unclosed (calls ++ [.commit]) := by
  induction unclosed with
  | innermost inside => exact .inl ⟨_, inside, rfl⟩
  | @around inner rest inside _ ih =>
    refine .inr ?_
    rw [List.cons_append, List.append_assoc]
    obtain ⟨last, balanced, rfl⟩ | deeper := ih
    · exact .innermost (inside.append (.group balanced .nil))
    · exact .around inside deeper

theorem run_eq (unclosed : Unclosed calls) (past : List UndoEntry) (group : List UndoAction)
    (depth : Nat) : ∃ inside, run calls ⟨past, [], group, depth, false⟩ =
      ⟨past, [], group ++ recorded calls, depth + 1 + inside, false⟩ := by
  induction unclosed generalizing group depth with
  | innermost inside => exact ⟨0, inside.run_eq past group depth⟩
  | @around inner rest inside _ ih =>
    obtain ⟨deeper, reached⟩ := ih (group ++ recorded inner) (depth + 1)
    have parts : recorded (.begin :: (inner ++ rest)) = recorded inner ++ recorded rest :=
      recorded_append inner rest
    refine ⟨1 + deeper, ?_⟩
    show run (inner ++ rest) ⟨past, [], group, depth + 1, false⟩ = _
    rw [run_append, inside.run_eq, reached, parts, List.append_assoc, Nat.add_assoc (depth + 1)]

end Unclosed

/-- What can be called where no group is open: a commit of nothing, one action, or a whole group. -/
inductive Part where
  | stray
  | alone (action : UndoAction)
  | group (inner : List LogCall) (balanced : Balanced inner)

namespace Part

def calls : Part → List LogCall
  | stray => [.commit]
  | alone action => [.record action]
  | group inner _ => .begin :: (inner ++ [.commit])

def actions (part : Part) : List UndoAction := recorded part.calls

/-- What some parts record, apart from those that record nothing. -/
def entries (parts : List Part) : List UndoEntry := (parts.map actions).filter (!·.isEmpty)

theorem run_eq (part : Part) (past : List UndoEntry) :
    run part.calls ⟨past, [], [], 0, false⟩ =
      ⟨(entries [part]).reverse ++ past, [], [], 0, false⟩ := by
  cases part with
  | stray => rfl
  | alone action => rfl
  | group inner balanced =>
    have parts : (group inner balanced).actions = recorded inner := by
      show recorded (inner ++ [.commit]) = recorded inner
      rw [recorded_append]
      exact List.append_nil _
    show run (inner ++ [.commit]) ⟨past, [], [], 0 + 1, false⟩ = _
    rw [run_append, balanced.run_eq, entries, List.map_singleton, parts]
    cases recorded inner <;> rfl

theorem run_all (parts : List Part) (past : List UndoEntry) :
    run (parts.flatMap calls) ⟨past, [], [], 0, false⟩ =
      ⟨(entries parts).reverse ++ past, [], [], 0, false⟩ := by
  induction parts generalizing past with
  | nil => rfl
  | cons part rest ih =>
    have split : entries (part :: rest) = entries [part] ++ entries rest :=
      List.filter_append [part.actions] (rest.map actions)
    rw [List.flatMap_cons, run_append, run_eq, ih, split, List.reverse_append, List.append_assoc]

end Part

/-- How the groups of some calls nest: parts that are complete, and perhaps a group still open. -/
structure Outline where
  parts : List Part
  open_ : List LogCall
  unclosed : open_ = [] ∨ Unclosed open_

namespace Outline

def calls (outline : Outline) : List LogCall := outline.parts.flatMap Part.calls ++ outline.open_

theorem extend (outline : Outline) (call : LogCall) :
    ∃ longer : Outline, longer.calls = outline.calls ++ [call] := by
  obtain ⟨parts, open_, closed | unclosed⟩ := outline
  · -- Outside of all groups, the call is a part of its own or begins one.
    subst closed
    have behind (part : Part) : (Outline.mk (parts ++ [part]) [] (.inl rfl)).calls =
        (Outline.mk parts [] (.inl rfl)).calls ++ part.calls := by
      simp [calls]
    cases call with
    | begin => exact ⟨⟨parts, [.begin], .inr (.innermost .nil)⟩, by simp [calls]⟩
    | commit => exact ⟨_, behind .stray⟩
    | record action => exact ⟨_, behind (.alone action)⟩
  · have inside (unclosed' : Unclosed (open_ ++ [call])) :
        (Outline.mk parts (open_ ++ [call]) (.inr unclosed')).calls =
          (Outline.mk parts open_ (.inr unclosed)).calls ++ [call] :=
      (List.append_assoc _ _ _).symm
    cases call with
    | begin => exact ⟨_, inside (unclosed.extend fun inner => .around inner (.innermost .nil))⟩
    | record action =>
      exact ⟨_, inside (unclosed.extend fun inner =>
        .innermost (inner.append (.record action .nil)))⟩
    | commit =>
      obtain ⟨inner, balanced, rfl⟩ | deeper := unclosed.commit
      · exact ⟨⟨parts ++ [.group inner balanced], [], .inl rfl⟩, by simp [calls, Part.calls]⟩
      · exact ⟨_, inside deeper⟩

theorem exists_of_calls (calls : List LogCall) : ∃ outline : Outline, outline.calls = calls := by
  induction calls using List.reverseRecOn with
  | nil => exact ⟨⟨[], [], .inl rfl⟩, rfl⟩
  | append_singleton front call ih =>
    obtain ⟨outline, rfl⟩ := ih
    exact outline.extend call

theorem run_calls (outline : Outline) :
    (run outline.calls .empty).entries = Part.entries outline.parts ∧
      (run outline.calls .empty).group = recorded outline.open_ := by
  obtain ⟨parts, open_, unclosed⟩ := outline
  have whole : run (Outline.mk parts open_ unclosed).calls .empty =
      run open_ ⟨(Part.entries parts).reverse, [], [], 0, false⟩ := by
    show run (parts.flatMap Part.calls ++ open_) ⟨[], [], [], 0, false⟩ = _
    rw [run_append, Part.run_all, List.append_nil]
  rw [whole]
  obtain rfl | unclosed := unclosed
  · exact ⟨List.reverse_reverse _, rfl⟩
  · obtain ⟨inside, reached⟩ := unclosed.run_eq (Part.entries parts).reverse [] 0
    rw [reached]
    exact ⟨List.reverse_reverse _, rfl⟩

end Outline

end LogCall

namespace UndoLog

/-- A commit either makes an entry of the group, and says so, or leaves the entries alone. -/
theorem commit_cases (log : UndoLog) :
    log.commit.2 = true ∧ log.commit.1.past = log.group :: log.past ∨
      log.commit.2 = false ∧ log.commit.1.past = log.past := by
  obtain ⟨past, future, group, depth, replaying⟩ := log
  match depth with
  | 0 => exact .inr ⟨rfl, rfl⟩
  | 1 =>
    cases group with
    | nil => exact .inr ⟨rfl, rfl⟩
    | cons action rest => exact .inl ⟨rfl, rfl⟩
  | depth + 2 => exact .inr ⟨rfl, rfl⟩

/-- An entry is moved to the other stack. What is reported while it is replayed is not noted. -/
def moved (pop : UndoLog → UndoLog × Option UndoEntry) (push : UndoLog → UndoEntry → UndoLog)
    (meanwhile : List UndoAction) (log : UndoLog) : UndoLog :=
  match (pop log).2 with
  | none => log
  | some entry =>
    push { meanwhile.foldl record { (pop log).1 with replaying := true } with replaying := false }
      entry

/-- The log is not replayed, and outside of groups no action is open. -/
structure Noting (log : UndoLog) : Prop where
  recording : log.replaying = false
  closed : log.depth = 0 → log.group = []

namespace Noting

variable {log : UndoLog}

theorem record (noting : log.Noting) (action : UndoAction) : (log.record action).Noting := by
  obtain ⟨-, -, closed⟩ := record_done noting.recording noting.closed action
  exact ⟨(log.record_replaying action).trans noting.recording, closed⟩

theorem call (noting : log.Noting) (call : LogCall) : (call.apply log).Noting := by
  cases call with
  | begin => exact ⟨noting.recording, fun outside => absurd outside (Nat.succ_ne_zero _)⟩
  | commit =>
    obtain ⟨-, replaying⟩ := log.commit_kept
    exact ⟨replaying.trans noting.recording, commit_closed noting.closed⟩
  | record action => exact noting.record action

theorem done_call (noting : log.Noting) (call : LogCall) :
    (call.apply log).done = log.done ++ call.action?.toList := by
  cases call with
  | begin => exact (List.append_nil _).symm
  | commit => exact log.commit_done.trans (List.append_nil _).symm
  | record action => exact (record_done noting.recording noting.closed action).1

theorem done_calls (noting : log.Noting) (calls : List LogCall) :
    (LogCall.run calls log).done = log.done ++ LogCall.recorded calls := by
  induction calls generalizing log with
  | nil => exact (List.append_nil _).symm
  | cons call rest ih =>
    show (LogCall.run rest (call.apply log)).done = _
    rw [ih (noting.call call), noting.done_call, List.append_assoc]
    cases call <;> rfl

theorem foldl_record_of_replaying (meanwhile : List UndoAction) (replaying : log.replaying = true) :
    meanwhile.foldl UndoLog.record log = log := by
  induction meanwhile with
  | nil => rfl
  | cons action rest ih => rw [List.foldl_cons, Space.record_of_replaying replaying, ih]

theorem undone (noting : log.Noting) (meanwhile : List UndoAction) :
    (log.moved popUndo pushRedo meanwhile).Noting := by
  unfold moved
  split
  · exact noting
  · rw [foldl_record_of_replaying meanwhile rfl]
    exact ⟨rfl, noting.closed⟩

theorem redone (noting : log.Noting) (meanwhile : List UndoAction) :
    (log.moved popRedo pushUndo meanwhile).Noting := by
  unfold moved
  split
  · exact noting
  · rw [foldl_record_of_replaying meanwhile rfl]
    exact ⟨rfl, noting.closed⟩

end Noting

end UndoLog

/-- A call to a log, or a move of the entry that is undone or redone. -/
inductive LogStep where
  | call (call : LogCall)
  | undo (meanwhile : List UndoAction)
  | redo (meanwhile : List UndoAction)

namespace LogStep

def apply (log : UndoLog) : LogStep → UndoLog
  | call c => c.apply log
  | undo meanwhile => log.moved UndoLog.popUndo UndoLog.pushRedo meanwhile
  | redo meanwhile => log.moved UndoLog.popRedo UndoLog.pushUndo meanwhile

def run (steps : List LogStep) (log : UndoLog) : UndoLog := steps.foldl apply log

theorem run_noting {log : UndoLog} (noting : log.Noting) (steps : List LogStep) :
    (run steps log).Noting := by
  induction steps generalizing log with
  | nil => exact noting
  | cons step rest ih =>
    cases step with
    | call c => exact ih (noting.call c)
    | undo meanwhile => exact ih (noting.undone meanwhile)
    | redo meanwhile => exact ih (noting.redone meanwhile)

end LogStep

namespace UndoLog

theorem empty_noting : empty.Noting := ⟨rfl, fun _ => rfl⟩

/-- Whatever is called, every action is noted once and in order. What is recorded between the
outermost `begin` and its `commit` is one entry, an action outside of groups is one of its own, and
only a commit that makes an entry says so. Where entries are also moved between the stacks, nothing
can be done again once an action is recorded. -/
theorem actions_grouped_once (calls : List LogCall) :
    let log := LogCall.run calls empty
    log.entries.flatten ++ log.group = LogCall.recorded calls ∧
      [] ∉ log.entries ∧
      (log.commit.2 = true ∧ log.commit.1.past = log.group :: log.past ∨
        log.commit.2 = false ∧ log.commit.1.past = log.past) ∧
      (∃ outline : LogCall.Outline, outline.calls = calls) ∧
      (∀ outline : LogCall.Outline, outline.calls = calls →
        log.entries = LogCall.Part.entries outline.parts ∧
          log.group = LogCall.recorded outline.open_) ∧
      ∀ (steps : List LogStep) (action : UndoAction),
        let before := LogStep.run steps empty
        (before.record action).done = before.done ++ [action] ∧
          (before.record action).future = [] := by
  intro log
  obtain ⟨outline, same⟩ := LogCall.Outline.exists_of_calls calls
  have grouped (outline : LogCall.Outline) (same : outline.calls = calls) :
      log.entries = LogCall.Part.entries outline.parts ∧
        log.group = LogCall.recorded outline.open_ := by
    subst same
    exact outline.run_calls
  refine ⟨empty_noting.done_calls calls, ?_, log.commit_cases, ⟨outline, same⟩, grouped, ?_⟩
  · rw [(grouped outline same).1]
    intro member
    obtain ⟨-, some_⟩ := List.mem_filter.1 member
    cases some_
  · intro steps action before
    have noting : before.Noting := LogStep.run_noting empty_noting steps
    obtain ⟨done, forgotten, -⟩ := record_done noting.recording noting.closed action
    exact ⟨done, forgotten⟩

/-- A commit of nothing, an action alone, a group with groups inside it, an empty group, and groups
that stay open. -/
theorem nested_calls_grouped :
    let note (a : Word) : UndoAction := .comment a none (some "here")
    let inner : List LogCall :=
      [.record (note 2), .begin, .record (note 3), .commit, .begin, .commit]
    let calls : List LogCall := [.commit, .record (note 1), .begin] ++ inner ++
      [.commit, .begin, .commit, .begin, .record (note 4), .begin]
    ∃ outline : LogCall.Outline, outline.calls = calls ∧
      (LogCall.run calls empty).entries = LogCall.Part.entries outline.parts ∧
      (LogCall.run calls empty).group = LogCall.recorded outline.open_ ∧
      LogCall.Part.entries outline.parts = [[note 1], [note 2, note 3]] ∧
      LogCall.recorded outline.open_ = [note 4] := by
  intro note inner calls
  have balanced : LogCall.Balanced inner := .record _ (.group (.record _ .nil) (.group .nil .nil))
  have unclosed : LogCall.Unclosed [.begin, .record (note 4), .begin] :=
    .around (.record _ .nil) (.innermost .nil)
  let outline : LogCall.Outline :=
    ⟨[.stray, .alone (note 1), .group inner balanced, .group [] .nil], _, .inr unclosed⟩
  obtain ⟨-, -, -, -, grouped, -⟩ := actions_grouped_once calls
  obtain ⟨entries, group⟩ := grouped outline rfl
  exact ⟨outline, rfl, entries, group, rfl, rfl⟩

end UndoLog

end BinaryAtlas
