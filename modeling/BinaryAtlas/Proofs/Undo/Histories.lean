import BinaryAtlas.Proofs.Undo.Bytes

/-!
The entries of a log, done and undone, as a chain of links from the first tables through the present
ones to those that doing everything again would give.
-/

set_option autoImplicit false

namespace BinaryAtlas

open Space

theorem Linked.reversed {backend : Backend} {t t' : Tables} {action : UndoAction}
    (linked : Linked backend t action t') : Linked backend t' (inverse action) t :=
  ⟨linked.after, linked.before, linked.undone, (inverse_inverse action).symm ▸ linked.redone⟩

inductive Chain (backend : Backend) : Tables → List UndoAction → Tables → Prop where
  | nil {t : Tables} (sound : t.Sound) : Chain backend t [] t
  | cons {t middle t' : Tables} {action : UndoAction} {rest : List UndoAction}
      (linked : Linked backend t action middle) (later : Chain backend middle rest t') :
      Chain backend t (action :: rest) t'

namespace Chain

variable {backend : Backend} {t middle t' : Tables} {actions more : List UndoAction}
  {action : UndoAction}

theorem sound_first (chain : Chain backend t actions t') : t.Sound := by
  cases chain with
  | nil sound => exact sound
  | cons linked _ => exact linked.before

theorem sound_last (chain : Chain backend t actions t') : t'.Sound := by
  induction chain with
  | nil sound => exact sound
  | cons _ _ ih => exact ih

theorem append (first : Chain backend t actions middle) (second : Chain backend middle more t') :
    Chain backend t (actions ++ more) t' := by
  induction first with
  | nil _ => exact second
  | cons linked _ ih => exact .cons linked (ih second)

theorem single (linked : Linked backend t action t') : Chain backend t [action] t' :=
  .cons linked (.nil linked.after)

theorem split (chain : Chain backend t (actions ++ more) t') :
    ∃ middle, Chain backend t actions middle ∧ Chain backend middle more t' := by
  induction actions generalizing t with
  | nil => exact ⟨t, .nil chain.sound_first, chain⟩
  | cons first rest ih =>
    cases chain with
    | cons linked later =>
      obtain ⟨middle, front, back⟩ := ih later
      exact ⟨middle, .cons linked front, back⟩

theorem reversed (chain : Chain backend t actions t') :
    Chain backend t' (actions.reverse.map inverse) t := by
  induction chain with
  | nil sound => exact .nil sound
  | cons linked _ ih =>
    rw [List.reverse_cons, List.map_append]
    exact ih.append (.single linked.reversed)

theorem replays (chain : Chain backend t actions t') {s : Space} (owns : s.Owns backend)
    (tables : s.tables = t) (log : UndoLog) :
    (replayed actions log s).Owns backend ∧
      (replayed actions log s).undoLog = { log with replaying := true } ∧
      (replayed actions log s).tables = t' := by
  have initial : ({ s with undoLog := { log with replaying := true } } : Space).Owns backend :=
    ⟨owns.backend, owns.memory, owns.numbered⟩
  suffices each : ∀ u : Space, u.Owns backend → u.undoLog = { log with replaying := true } →
      u.tables = t → ((Op.forEach redoAction actions) u).collect.2.2.Owns backend ∧
        ((Op.forEach redoAction actions) u).collect.2.2.undoLog =
          { log with replaying := true } ∧
        ((Op.forEach redoAction actions) u).collect.2.2.tables = t' from
    each _ initial rfl tables
  clear owns tables initial
  induction chain with
  | nil _ => exact fun u owns kept here => ⟨owns, kept, here⟩
  | cons linked _ ih =>
    intro u owns kept here
    obtain ⟨owns, still, there⟩ := linked.redone u owns (by rw [kept]) here
    rw [Op.forEach, Op.collect_bind]
    exact ih _ owns (still.trans kept) there

/-- To take an entry back leads to the tables before it. -/
theorem undo {s : Space} {entry : UndoEntry} {earlier : List UndoEntry}
    (chain : Chain backend t entry s.tables) (owns : s.Owns backend)
    (outside : s.undoLog.inGroup = false) (latest : s.undoLog.past = entry :: earlier) :
    ((Space.undo) s).collect.2.1 = true ∧ ((Space.undo) s).collect.2.2.Owns backend ∧
      ((Space.undo) s).collect.2.2.undoLog = { s.undoLog with
        past := earlier, future := entry :: s.undoLog.future, replaying := false } ∧
      ((Space.undo) s).collect.2.2.tables = t := by
  obtain ⟨owns, log, tables⟩ := chain.reversed.replays owns rfl { s.undoLog with past := earlier }
  rw [collect_undo outside latest]
  refine ⟨rfl, ⟨owns.backend, owns.memory, owns.numbered⟩, ?_, tables⟩
  simp only [withLog, log]
  rfl

theorem redo {s : Space} {entry : UndoEntry} {later : List UndoEntry}
    (chain : Chain backend s.tables entry t') (owns : s.Owns backend)
    (outside : s.undoLog.inGroup = false) (next : s.undoLog.future = entry :: later) :
    ((Space.redo) s).collect.2.1 = true ∧ ((Space.redo) s).collect.2.2.Owns backend ∧
      ((Space.redo) s).collect.2.2.undoLog = { s.undoLog with
        past := entry :: s.undoLog.past, future := later, replaying := false } ∧
      ((Space.redo) s).collect.2.2.tables = t' := by
  obtain ⟨owns, log, tables⟩ := chain.replays owns rfl { s.undoLog with future := later }
  rw [collect_redo outside next]
  refine ⟨rfl, ⟨owns.backend, owns.memory, owns.numbered⟩, ?_, tables⟩
  simp only [withLog, log]
  rfl

end Chain

namespace UndoLog

/-- The actions that were done and not taken back, in order. -/
def done (log : UndoLog) : List UndoAction := log.past.reverse.flatten ++ log.group

theorem record_done {log : UndoLog} (recording : log.replaying = false)
    (closed : log.depth = 0 → log.group = []) (action : UndoAction) :
    (log.record action).done = log.done ++ [action] ∧ (log.record action).future = [] ∧
      ((log.record action).depth = 0 → (log.record action).group = []) := by
  unfold record
  rw [if_neg (by simp [recording])]
  cases depth : log.depth with
  | zero =>
    have empty := closed depth
    simp [inGroup, depth, done, empty]
  | succ outer => simp [inGroup, depth, done]

theorem commit_done (log : UndoLog) : log.commit.1.done = log.done := by
  obtain ⟨past, future, group, depth, replaying⟩ := log
  match depth with
  | 0 => rfl
  | 1 => cases group <;> simp [commit, done]
  | depth + 2 => rfl

theorem commit_closed {log : UndoLog} (closed : log.depth = 0 → log.group = []) :
    log.commit.1.depth = 0 → log.commit.1.group = [] := by
  obtain ⟨past, future, group, depth, replaying⟩ := log
  match depth with
  | 0 => exact closed
  | 1 => cases group <;> simp [commit]
  | depth + 2 => simp [commit]

theorem commit_kept (log : UndoLog) :
    log.commit.1.future = log.future ∧ log.commit.1.replaying = log.replaying := by
  obtain ⟨past, future, group, depth, replaying⟩ := log
  match depth with
  | 0 => exact ⟨rfl, rfl⟩
  | 1 => cases group <;> exact ⟨rfl, rfl⟩
  | depth + 2 => exact ⟨rfl, rfl⟩

end UndoLog

/-- The tables of a space follow from the first ones by what its log says was done, and what it
says can be done again leads on from them. -/
structure Consistent (backend : Backend) (first : Tables) (s : Space) : Prop where
  owns : s.Owns backend
  recording : s.undoLog.replaying = false
  closed : s.undoLog.depth = 0 → s.undoLog.group = []
  done : Chain backend first s.undoLog.done s.tables
  undone : ∃ last, Chain backend s.tables s.undoLog.future.flatten last

namespace Consistent

variable {backend : Backend} {first : Tables} {s after : Space} {action : UndoAction}

theorem sound (consistent : Consistent backend first s) : s.tables.Sound :=
  consistent.done.sound_last

theorem relogged (consistent : Consistent backend first s) (owns : after.Owns backend)
    (tables : after.tables = s.tables) (recording : after.undoLog.replaying = false)
    (closed : after.undoLog.depth = 0 → after.undoLog.group = [])
    (done : after.undoLog.done = s.undoLog.done)
    (future : after.undoLog.future = s.undoLog.future) : Consistent backend first after where
  owns := owns
  recording := recording
  closed := closed
  done := by rw [done, tables]; exact consistent.done
  undone := by rw [future, tables]; exact consistent.undone

theorem unchanged (consistent : Consistent backend first s) (owns : after.Owns backend)
    (log : after.undoLog = s.undoLog) (tables : after.tables = s.tables) :
    Consistent backend first after := by
  apply consistent.relogged owns tables
  · rw [log, consistent.recording]
  · rw [log]
    exact consistent.closed
  · rw [log]
  · rw [log]

theorem recorded (consistent : Consistent backend first s) (owns : after.Owns backend)
    (log : after.undoLog = s.undoLog.record action)
    (linked : Linked backend s.tables action after.tables) : Consistent backend first after := by
  obtain ⟨done, future, closed⟩ :=
    UndoLog.record_done consistent.recording consistent.closed action
  constructor
  · exact owns
  · rw [log, UndoLog.record_replaying, consistent.recording]
  · rw [log]
    exact closed
  · rw [log, done]
    exact consistent.done.append (.single linked)
  · rw [log, future]
    exact ⟨_, .nil linked.after⟩

theorem of_settles {α : Type} {op : Op α} {answer : α} (settles : op.Settles s answer after)
    (consistent : Consistent backend first after) :
    Consistent backend first (op s).collect.2.2 :=
  consistent.unchanged (.of_settles settles consistent.owns) settles.undoLog
    (tables_of_settles settles)

theorem begun (consistent : Consistent backend first s) :
    Consistent backend first (s.withLog (·.begin)) :=
  consistent.relogged
    ⟨consistent.owns.backend, consistent.owns.memory, consistent.owns.numbered⟩ rfl
    consistent.recording (by simp [withLog, UndoLog.begin]) rfl rfl

theorem committed (consistent : Consistent backend first s) :
    Consistent backend first (s.withLog (·.commit.1)) := by
  obtain ⟨future, replaying⟩ := s.undoLog.commit_kept
  exact consistent.relogged
    ⟨consistent.owns.backend, consistent.owns.memory, consistent.owns.numbered⟩ rfl
    (replaying.trans consistent.recording) (UndoLog.commit_closed consistent.closed)
    s.undoLog.commit_done future

theorem latest_links (consistent : Consistent backend first s) {entry : UndoEntry}
    {earlier : List UndoEntry} (outside : s.undoLog.inGroup = false)
    (latest : s.undoLog.past = entry :: earlier) :
    ∃ middle, Chain backend first earlier.reverse.flatten middle ∧
      Chain backend middle entry s.tables := by
  have empty := consistent.closed (by simpa [UndoLog.inGroup] using outside)
  have done := consistent.done
  rw [UndoLog.done, latest, empty, List.append_nil, List.reverse_cons, List.flatten_append,
    List.flatten_singleton] at done
  exact done.split

theorem after_undo (consistent : Consistent backend first s) :
    Consistent backend first ((undo) s).collect.2.2 := by
  by_cases refused : s.undoLog.inGroup = true ∨ s.undoLog.past = []
  · rw [undo_refused refused]
    exact consistent
  · obtain ⟨entry, earlier, outside, latest⟩ := undo_admitted refused
    have empty := consistent.closed (by simpa [UndoLog.inGroup] using outside)
    obtain ⟨middle, before, last_entry⟩ := consistent.latest_links outside latest
    obtain ⟨-, owns, log, tables⟩ := last_entry.undo consistent.owns outside latest
    obtain ⟨last, undone⟩ := consistent.undone
    refine ⟨owns, by rw [log], by rw [log]; exact fun _ => empty, ?_, last, ?_⟩
    · rw [log, tables]
      simpa [UndoLog.done, empty] using before
    · rw [log, tables]
      exact last_entry.append undone

theorem after_redo (consistent : Consistent backend first s) :
    Consistent backend first ((redo) s).collect.2.2 := by
  by_cases refused : s.undoLog.inGroup = true ∨ s.undoLog.future = []
  · rw [redo_refused refused]
    exact consistent
  · obtain ⟨entry, later, outside, next⟩ := redo_admitted refused
    have empty := consistent.closed (by simpa [UndoLog.inGroup] using outside)
    obtain ⟨last, undone⟩ := consistent.undone
    rw [next, List.flatten_cons] at undone
    obtain ⟨middle, forth, rest⟩ := undone.split
    obtain ⟨-, owns, log, tables⟩ := forth.redo consistent.owns outside next
    have done := consistent.done.append forth
    refine ⟨owns, by rw [log], by rw [log]; exact fun _ => empty, ?_, last, ?_⟩
    · rw [log, tables]
      simpa [UndoLog.done, empty] using done
    · rw [log, tables]
      exact rest

theorem redo_undo (consistent : Consistent backend first s)
    (undid : ((undo) s).collect.2.1 = true) :
    ((redo) ((undo) s).collect.2.2).collect.2.1 = true ∧
      ((redo) ((undo) s).collect.2.2).collect.2.2.tables = s.tables := by
  by_cases refused : s.undoLog.inGroup = true ∨ s.undoLog.past = []
  · rw [undo_refused refused] at undid
    cases undid
  · obtain ⟨entry, earlier, outside, latest⟩ := undo_admitted refused
    obtain ⟨middle, -, last_entry⟩ := consistent.latest_links outside latest
    obtain ⟨-, owns, log, tables⟩ := last_entry.undo consistent.owns outside latest
    -- The entry that was taken back is the next to be done again, from the tables it began at.
    rw [← tables] at last_entry
    obtain ⟨answer, -, -, restored⟩ :=
      last_entry.redo owns (by rw [log]; exact outside) (by rw [log])
    exact ⟨answer, restored⟩

end Consistent

end BinaryAtlas
