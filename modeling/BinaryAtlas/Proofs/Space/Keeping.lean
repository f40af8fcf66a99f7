import BinaryAtlas.Space

/-!
What operations leave as it is. An operation keeps a view of the space if those who listen only take
note and the view shows the same at its end.
-/

set_option autoImplicit false

namespace BinaryAtlas

namespace Op

variable {α β X : Type} {view : Space → X}

def Keeps (view : Space → X) (op : Op α) : Prop :=
  ∀ s, view (op s).collect.2.2 = view s

theorem collect_bind (op : Op α) (next : α → Op β) (s : Space) :
    ((op >>= next) s).collect.2 = (next (op s).collect.2.1 (op s).collect.2.2).collect.2 := by
  have whole : ((op >>= next) s).collect = _ := Run.collect_bind (op s) next
  rw [whole]

theorem collect_read_bind (f : Space → α) (next : α → Op β) (s : Space) :
    ((read f >>= next) s).collect.2 = (next (f s) s).collect.2 :=
  collect_bind (read f) next s

theorem collect_update_bind (f : Space → Space × α) (next : α → Op β) (s : Space) :
    ((update f >>= next) s).collect.2 = (next (f s).2 (f s).1).collect.2 :=
  collect_bind (update f) next s

theorem keeps_pure (a : α) : Keeps view (pure a : Op α) := fun _ => rfl

theorem keeps_bind {op : Op α} {next : α → Op β} (first : Keeps view op)
    (later : ∀ a, Keeps view (next a)) : Keeps view (op >>= next) := by
  intro s
  rw [collect_bind, later, first]

theorem keeps_read (f : Space → α) : Keeps view (read f) := fun _ => rfl

theorem keeps_modify {f : Space → Space} (same : ∀ s, view (f s) = view s) :
    Keeps view (modify f) :=
  same

theorem keeps_notify (notice : Notice) : Keeps view (notify notice) := fun _ => rfl

theorem keeps_forEach {act : α → Op Unit} (each : ∀ a, Keeps view (act a)) (items : List α) :
    Keeps view (forEach act items) := by
  induction items with
  | nil => exact keeps_pure ()
  | cons first rest ih => exact keeps_bind (each first) fun _ => ih

theorem keeps_discard {op : Op α} (kept : Keeps view op) : Keeps view (discard op) :=
  keeps_bind kept fun _ => keeps_pure ()

theorem forEach_collect_invariant {invariant : Space → Prop} {act : α → Op Unit} {items : List α}
    (each : ∀ a ∈ items, ∀ s, invariant s → invariant ((act a) s).collect.2.2) {s : Space}
    (initial : invariant s) : invariant ((forEach act items) s).collect.2.2 := by
  induction items generalizing s with
  | nil => exact initial
  | cons first rest ih =>
    rw [forEach, collect_bind]
    exact ih (fun a member => each a (List.mem_cons_of_mem first member))
      (each first List.mem_cons_self s initial)

theorem forEach_map {γ : Type} (act : α → Op Unit) (f : γ → α) (items : List γ) :
    forEach act (items.map f) = forEach (fun item => act (f item)) items := by
  induction items with
  | nil => rfl
  | cons first rest ih => rw [List.map_cons, forEach, forEach, ih]

end Op

namespace Space

variable {X : Type} {view : Space → X}

theorem keeps_record (same : ∀ s undoLog, view { s with undoLog := undoLog } = view s)
    (action : UndoAction) : Op.Keeps view (record action) :=
  Op.keeps_modify fun s => same s _

theorem keeps_tell (same : ∀ s bulk, view { s with bulk := bulk } = view s) (event : ChangeEvent) :
    Op.Keeps view (tell event) := by
  unfold tell
  apply Op.keeps_bind (Op.keeps_read _)
  intro bulky
  split
  · exact Op.keeps_modify fun s => same s _
  · exact Op.keeps_notify _

theorem keeps_emit (bulk_same : ∀ s bulk, view { s with bulk := bulk } = view s)
    (scheduler_same : ∀ s scheduler, view { s with scheduler := scheduler } = view s)
    (events : List ChangeEvent) : Op.Keeps view (emit events) := by
  unfold emit
  apply Op.keeps_bind (Op.keeps_forEach (keeps_tell bulk_same) events)
  intro _
  apply Op.keeps_bind (Op.keeps_read _)
  intro scheduled
  split
  · exact Op.keeps_modify fun s => scheduler_same s _
  · exact Op.keeps_pure ()

/-- What is not about a symbol is told at once, one event after the other. -/
theorem collect_tellQuietly_plain {events : List ChangeEvent}
    (plain : ∀ event ∈ events, event.isAboutSymbol = false) (s : Space) :
    ((tellQuietly events) s).collect = (events.map .changed, (), s) := by
  unfold tellQuietly
  induction events with
  | nil => rfl
  | cons event rest ih =>
    have later := ih fun event member => plain event (List.mem_cons_of_mem _ member)
    have whole : (Op.forEach tell (event :: rest) s).collect =
      _ := Run.collect_bind (tell event s) fun _ => Op.forEach tell rest
    rw [whole, tell_at_once (.inl (plain event List.mem_cons_self))]
    show (.changed event :: (Op.forEach tell rest s).collect.1,
      (Op.forEach tell rest s).collect.2) = _
    rw [later]
    rfl

theorem emit_keeps_bulk {event : ChangeEvent} (plain : event.isAboutSymbol = false) :
    Op.Keeps (·.bulk) (emit [event]) := by
  have kept : Op.Keeps (·.bulk) (tell event) := fun s => by rw [tell_at_once (.inl plain)]; rfl
  refine Op.keeps_bind (Op.keeps_bind kept fun _ => Op.keeps_pure ()) fun _ =>
    Op.keeps_bind (Op.keeps_read _) fun _ => ?_
  split
  · exact Op.keeps_modify fun _ => rfl
  · exact Op.keeps_pure ()

end Space

end BinaryAtlas
