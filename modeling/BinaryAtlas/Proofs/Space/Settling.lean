import BinaryAtlas.Proofs.Space.Keeping
import BinaryAtlas.Space.Bytes

/-!
Where operations lead when those who listen only take note. To tell of a change leaves everything
but what is still to be told, so spaces are compared without that.
-/

set_option autoImplicit false

namespace BinaryAtlas

namespace Space

/-- A space without what observers and analysis are still to be told. -/
def settled (s : Space) : Space := { s with scheduler := .initial, bulk := ⟨0, []⟩ }

/-- A space whose log has noted an action, if it is one to note. -/
def noted (condition : Bool) (action : UndoAction) (s : Space) : Space :=
  { s with undoLog := if condition then s.undoLog.record action else s.undoLog }

end Space

namespace Op

variable {α β : Type} {s after : Space} {answer : α}

/-- From `s` an operation gives the answer and leads to `after`. -/
def Settles (op : Op α) (s : Space) (answer : α) (after : Space) : Prop :=
  (op s).collect.2.1 = answer ∧ (op s).collect.2.2.settled = after.settled

theorem Settles.shows {X : Type} {op : Op α} (settles : op.Settles s answer after)
    {view : Space → X} (kept : ∀ s, view s.settled = view s) :
    view (op s).collect.2.2 = view after := by
  rw [← kept, settles.2, kept]

theorem Settles.map {op : Op α} (settles : op.Settles s answer after) :
    (op s).collect.2.2.map = after.map :=
  settles.shows fun _ => rfl

theorem Settles.undoLog {op : Op α} (settles : op.Settles s answer after) :
    (op s).collect.2.2.undoLog = after.undoLog :=
  settles.shows fun _ => rfl

theorem Settles.types {op : Op α} (settles : op.Settles s answer after) :
    (op s).collect.2.2.metadata.types = after.metadata.types :=
  congrArg (·.types) (settles.shows fun _ => rfl : (op s).collect.2.2.metadata = after.metadata)

theorem Settles.idsMade {op : Op α} (settles : op.Settles s answer after) :
    (op s).collect.2.2.idsMade = after.idsMade :=
  settles.shows fun _ => rfl

theorem Settles.alike {op : Op α} {after' : Space} (settles : op.Settles s answer after)
    (same : after.settled = after'.settled) : op.Settles s answer after' :=
  ⟨settles.1, settles.2.trans same⟩

theorem settles_of_collect {op op' : Op α} {s' : Space}
    (same : (op s).collect.2 = (op' s').collect.2) :
    op.Settles s answer after ↔ op'.Settles s' answer after := by
  unfold Settles
  rw [same]

@[simp] theorem pure_settles (a : α) (s : Space) : (pure a : Op α).Settles s a s := ⟨rfl, rfl⟩

@[simp] theorem modify_settles (f : Space → Space) (s : Space) :
    (modify f).Settles s () (f s) := ⟨rfl, rfl⟩

@[simp] theorem update_settles (f : Space → Space × α) (s : Space) :
    (update f).Settles s (f s).2 (f s).1 := ⟨rfl, rfl⟩

@[simp] theorem read_bind_settles {f : Space → β} {next : β → Op α} :
    (read f >>= next).Settles s answer after ↔ (next (f s)).Settles s answer after :=
  settles_of_collect (collect_read_bind f next s)

@[simp] theorem update_bind_settles {f : Space → Space × β} {next : β → Op α} :
    (update f >>= next).Settles s answer after ↔ (next (f s).2).Settles (f s).1 answer after :=
  settles_of_collect (collect_update_bind f next s)

@[simp] theorem modify_bind_settles {f : Space → Space} {next : Unit → Op α} :
    (modify f >>= next).Settles s answer after ↔ (next ()).Settles (f s) answer after :=
  settles_of_collect (collect_bind (modify f) next s)

@[simp] theorem pure_bind_settles {b : β} {next : β → Op α} :
    (pure b >>= next).Settles s answer after ↔ (next b).Settles s answer after :=
  settles_of_collect (collect_bind (pure b) next s)

theorem collect_discard (op : Op α) (s : Space) :
    ((discard op) s).collect.2.2 = (op s).collect.2.2 := by
  show ((op >>= fun _ => pure ()) s).collect.2.2 = _
  rw [collect_bind]
  rfl

theorem Settles.discard {op : Op α} (settles : op.Settles s answer after) :
    (discard op).Settles s () after :=
  ⟨rfl, by rw [collect_discard]; exact settles.2⟩

end Op

namespace Space

open Op

variable {α : Type} {s after : Space} {answer : α}

@[simp] theorem record_bind_settles {action : UndoAction} {next : Unit → Op α} :
    (record action >>= next).Settles s answer after ↔
      (next ()).Settles (noted true action s) answer after :=
  modify_bind_settles

@[simp] theorem recordIf_bind_settles {condition : Bool} {action : UndoAction}
    {next : Unit → Op α} :
    (recordIf condition action >>= next).Settles s answer after ↔
      (next ()).Settles (noted condition action s) answer after := by
  cases condition with
  | true => exact record_bind_settles
  | false => exact pure_bind_settles

@[simp] theorem emit_settles (events : List ChangeEvent) (s : Space) :
    (emit events).Settles s () s :=
  ⟨rfl, keeps_emit (fun _ _ => rfl) (fun _ _ => rfl) events s⟩

@[simp] theorem emit_pure_settles (events : List ChangeEvent) (answer : α) (s : Space) :
    (do emit events; pure answer : Op α).Settles s answer s := by
  constructor
  · rw [Op.collect_bind]
    rfl
  · exact keeps_bind (keeps_emit (fun _ _ => rfl) (fun _ _ => rfl) events)
      (fun _ => keeps_pure answer) s

end Space

end BinaryAtlas
