import BinaryAtlas.Proofs.Space.Settling
import BinaryAtlas.Space.Undo

/-!
Taking back and doing again, as replaying the actions of an entry with a log that notes nothing.
-/

set_option autoImplicit false

namespace BinaryAtlas

namespace UndoLog

/-- Whether all that a log holds is of some kind. -/
structure Holds (kind : UndoAction → Prop) (log : UndoLog) : Prop where
  past : ∀ entry ∈ log.past, ∀ action ∈ entry, kind action
  future : ∀ entry ∈ log.future, ∀ action ∈ entry, kind action
  group : ∀ action ∈ log.group, kind action

variable {kind other : UndoAction → Prop} {log : UndoLog} {action : UndoAction}

theorem Holds.imp (holds : log.Holds kind) (weaker : ∀ action, kind action → other action) :
    log.Holds other where
  past entry member action inside := weaker action (holds.past entry member action inside)
  future entry member action inside := weaker action (holds.future entry member action inside)
  group action inside := weaker action (holds.group action inside)

theorem empty_holds : empty.Holds kind := by
  constructor <;> simp [empty]

theorem record_holds (holds : log.Holds kind) (new : kind action) :
    (log.record action).Holds kind := by
  unfold record
  split
  · exact holds
  · split
    · refine ⟨holds.past, by simp, fun a inside => ?_⟩
      rcases List.mem_append.1 inside with earlier | latest
      · exact holds.group a earlier
      · rwa [List.mem_singleton.1 latest]
    · refine ⟨fun entry member a inside => ?_, by simp, holds.group⟩
      rcases List.mem_cons.1 member with rfl | earlier
      · rwa [List.mem_singleton.1 inside]
      · exact holds.past entry earlier a inside

theorem undone_holds (holds : log.Holds kind) {entry : UndoEntry} {earlier : List UndoEntry}
    (latest : log.past = entry :: earlier) (replaying : Bool) :
    ({ log with past := earlier, future := entry :: log.future, replaying := replaying } :
      UndoLog).Holds kind := by
  have past := holds.past
  rw [latest] at past
  refine ⟨fun e member => past e (List.mem_cons_of_mem entry member), fun e member => ?_,
    holds.group⟩
  rcases List.mem_cons.1 member with rfl | member
  · exact past e List.mem_cons_self
  · exact holds.future e member

theorem redone_holds (holds : log.Holds kind) {entry : UndoEntry} {later : List UndoEntry}
    (next : log.future = entry :: later) (replaying : Bool) :
    ({ log with past := entry :: log.past, future := later, replaying := replaying } :
      UndoLog).Holds kind := by
  have future := holds.future
  rw [next] at future
  refine ⟨fun e member => ?_, fun e member => future e (List.mem_cons_of_mem entry member),
    holds.group⟩
  rcases List.mem_cons.1 member with rfl | member
  · exact future e List.mem_cons_self
  · exact holds.past e member

theorem record_replaying (log : UndoLog) (action : UndoAction) :
    (log.record action).replaying = log.replaying := by
  unfold record
  split
  · rfl
  · split <;> rfl

end UndoLog

namespace Space

/-- Where replaying some actions leads while the log is `log` and stays so. -/
def replayed (actions : List UndoAction) (log : UndoLog) (s : Space) : Space :=
  ((Op.forEach redoAction actions) { s with undoLog := { log with replaying := true } }).collect.2.2

def withLog (s : Space) (f : UndoLog → UndoLog) : Space := { s with undoLog := f s.undoLog }

theorem undo_refused {s : Space} (refused : s.undoLog.inGroup = true ∨ s.undoLog.past = []) :
    ((undo) s).collect.2 = (false, s) := by
  rw [undo, Op.collect_read_bind]
  cases grouped : s.undoLog.inGroup with
  | true => rfl
  | false =>
    have nothing : s.undoLog.past = [] := by simpa [grouped] using refused
    simp only [UndoLog.popUndo, nothing]
    rfl

theorem undo_admitted {s : Space}
    (admitted : ¬ (s.undoLog.inGroup = true ∨ s.undoLog.past = [])) :
    ∃ entry earlier, s.undoLog.inGroup = false ∧ s.undoLog.past = entry :: earlier := by
  obtain ⟨outside, some_past⟩ := not_or.1 admitted
  obtain ⟨entry, earlier, latest⟩ := List.exists_cons_of_ne_nil some_past
  exact ⟨entry, earlier, by simpa using outside, latest⟩

theorem collect_undo {s : Space} {entry : UndoEntry} {earlier : List UndoEntry}
    (outside : s.undoLog.inGroup = false) (latest : s.undoLog.past = entry :: earlier) :
    ((undo) s).collect.2 = (true,
      (replayed (entry.reverse.map inverse) { s.undoLog with past := earlier } s).withLog
        fun log => { log with replaying := false }.pushRedo entry) := by
  rw [undo, Op.collect_read_bind]
  simp only [outside, UndoLog.popUndo, latest]
  simp only [Bool.false_eq_true, if_false, List.head?_cons, List.tail_cons]
  rw [Op.collect_bind, Op.collect_bind, Op.collect_bind, replayed, Op.forEach_map]
  rfl

theorem redo_refused {s : Space} (refused : s.undoLog.inGroup = true ∨ s.undoLog.future = []) :
    ((redo) s).collect.2 = (false, s) := by
  rw [redo, Op.collect_read_bind]
  cases grouped : s.undoLog.inGroup with
  | true => rfl
  | false =>
    have nothing : s.undoLog.future = [] := by simpa [grouped] using refused
    simp only [UndoLog.popRedo, nothing]
    rfl

theorem redo_admitted {s : Space}
    (admitted : ¬ (s.undoLog.inGroup = true ∨ s.undoLog.future = [])) :
    ∃ entry later, s.undoLog.inGroup = false ∧ s.undoLog.future = entry :: later := by
  obtain ⟨outside, some_future⟩ := not_or.1 admitted
  obtain ⟨entry, later, next⟩ := List.exists_cons_of_ne_nil some_future
  exact ⟨entry, later, by simpa using outside, next⟩

theorem collect_redo {s : Space} {entry : UndoEntry} {later : List UndoEntry}
    (outside : s.undoLog.inGroup = false) (next : s.undoLog.future = entry :: later) :
    ((redo) s).collect.2 = (true,
      (replayed entry { s.undoLog with future := later } s).withLog
        fun log => { log with replaying := false }.pushUndo entry) := by
  rw [redo, Op.collect_read_bind]
  simp only [outside, UndoLog.popRedo, next]
  simp only [Bool.false_eq_true, if_false, List.head?_cons, List.tail_cons]
  rw [Op.collect_bind, Op.collect_bind, Op.collect_bind, replayed]
  rfl

end Space

end BinaryAtlas
