import BinaryAtlas.Proofs.Space.Settling

/-!
The changes that an operation tells of, each with what is known of the space at that moment. They
are what someone sees who takes note and looks around.
-/

set_option autoImplicit false

namespace BinaryAtlas

namespace Run

variable {α β : Type}

def scenes : Run α → List (ChangeEvent × Metadata)
  | done _ _ => []
  | notify (.changed event) s resume => (event, s.metadata) :: (resume s).scenes
  | notify (.completed _) s resume => (resume s).scenes

theorem scenes_bind (r : Run α) (next : α → Space → Run β) :
    (r.bind next).scenes = r.scenes ++ (next r.collect.2.1 r.collect.2.2).scenes := by
  induction r with
  | done a s => rfl
  | notify n s resume ih =>
    cases n with
    | changed event => exact congrArg ((event, s.metadata) :: ·) (ih s)
    | completed event => exact ih s

end Run

namespace Op

variable {α β : Type}

def scenes (op : Op α) (s : Space) : List (ChangeEvent × Metadata) := (op s).scenes

theorem scenes_bind (op : Op α) (next : α → Op β) (s : Space) :
    (op >>= next).scenes s =
      op.scenes s ++ (next (op s).collect.2.1).scenes (op s).collect.2.2 :=
  Run.scenes_bind (op s) fun a s' => next a s'

theorem scenes_forEach_append (act : α → Op Unit) (front back : List α) (s : Space) :
    (forEach act (front ++ back)).scenes s =
      (forEach act front).scenes s ++
        (forEach act back).scenes (forEach act front s).collect.2.2 := by
  induction front generalizing s with
  | nil => rfl
  | cons first rest ih =>
    have last := congrArg Prod.snd (collect_bind (act first) (fun _ => forEach act rest) s)
    change (forEach act (first :: rest) s).collect.2.2 = _ at last
    rw [List.cons_append, forEach, scenes_bind, ih, last, forEach, scenes_bind, List.append_assoc]

theorem collect_forEach_append (act : α → Op Unit) (front back : List α) (s : Space) :
    (forEach act (front ++ back) s).collect.2.2 =
      (forEach act back (forEach act front s).collect.2.2).collect.2.2 := by
  induction front generalizing s with
  | nil => rfl
  | cons first rest ih =>
    rw [List.cons_append, forEach, collect_bind, ih, forEach, collect_bind]

/-- What an operation shows of the metadata: at each change it tells of, and at its end. -/
def shown (op : Op α) (s : Space) : List (ChangeEvent × Metadata) × Metadata :=
  (op.scenes s, (op s).collect.2.2.metadata)

@[simp] theorem shown_pure_bind (b : β) (next : β → Op α) (s : Space) :
    (pure b >>= next).shown s = (next b).shown s := rfl

@[simp] theorem shown_read_bind (f : Space → β) (next : β → Op α) (s : Space) :
    (read f >>= next).shown s = (next (f s)).shown s := rfl

@[simp] theorem shown_update_bind (f : Space → Space × β) (next : β → Op α) (s : Space) :
    (update f >>= next).shown s = (next (f s).2).shown (f s).1 := rfl

@[simp] theorem shown_modify_bind (f : Space → Space) (next : Unit → Op α) (s : Space) :
    (modify f >>= next).shown s = (next ()).shown (f s) := rfl

theorem shown_bind_quiet {op : Op α} {next : α → Op β}
    (quiet : ∀ a s, (next a).shown s = ([], s.metadata)) (s : Space) :
    (op >>= next).shown s = op.shown s := by
  have later := quiet (op s).collect.2.1 (op s).collect.2.2
  unfold shown at later ⊢
  obtain ⟨silent, same⟩ := Prod.ext_iff.1 later
  rw [scenes_bind, collect_bind]
  exact Prod.ext ((congrArg _ silent).trans (List.append_nil _)) same

@[simp] theorem shown_bind_pure (op : Op α) (answer : α → β) (s : Space) :
    (op >>= fun a => pure (answer a)).shown s = op.shown s :=
  shown_bind_quiet (fun _ _ => rfl) s

end Op

namespace Space

@[simp] theorem shown_recordIf_bind {α : Type} (condition : Bool) (action : UndoAction)
    (next : Unit → Op α) (s : Space) :
    (recordIf condition action >>= next).shown s =
      (next ()).shown (noted condition action s) := by
  cases condition <;> rfl

/-- What is not about a symbol is told at once. -/
theorem scenes_emit {events : List ChangeEvent}
    (plain : ∀ event ∈ events, event.isAboutSymbol = false) (s : Space) :
    (emit events).scenes s = events.map fun event => (event, s.metadata) := by
  have told : (tellQuietly events).scenes s = events.map fun event => (event, s.metadata) := by
    unfold tellQuietly
    induction events with
    | nil => rfl
    | cons event rest ih =>
      have later := ih fun event member => plain event (List.mem_cons_of_mem _ member)
      rw [Op.forEach, Op.scenes_bind]
      unfold Op.scenes
      rw [tell_at_once (.inl (plain event List.mem_cons_self))]
      exact congrArg ((event, s.metadata) :: ·) later
  have woken (s : Space) : Op.scenes (do
      if events.any (·.wakesAnalysis) && (← Op.read (·.config.analysis.autoSchedule)) then
        editScheduler (·.schedule)) s = [] := by
    show Run.scenes ((if _ then _ else _ : Op Unit) s) = []
    split <;> rfl
  have whole : (emit events).scenes s = (tellQuietly events).scenes s ++ _ := Op.scenes_bind _ _ s
  rw [whole, woken, List.append_nil, told]

theorem shown_emit {events : List ChangeEvent}
    (plain : ∀ event ∈ events, event.isAboutSymbol = false) (s : Space) :
    (emit events).shown s = (events.map fun event => (event, s.metadata), s.metadata) := by
  have kept : Op.Keeps (·.metadata) (emit events) :=
    keeps_emit (fun _ _ => rfl) (fun _ _ => rfl) events
  exact Prod.ext (scenes_emit plain s) (kept s)

end Space

end BinaryAtlas
