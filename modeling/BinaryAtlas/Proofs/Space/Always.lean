import BinaryAtlas.Space

/-!
What holds of a space whenever an operation tells of a change, and when it ends. Whoever listens may
change the space before the operation goes on; it is only asked that they leave it as good as they
found it.
-/

set_option autoImplicit false

namespace BinaryAtlas

variable {α β : Type} {good fits : Space → Prop}

namespace Run

/-- The space is good wherever the run stops. A space that does not fit is not looked at: the
program would not get there. -/
def Always (good fits : Space → Prop) : Run α → Prop
  | done _ s => good s ∧ fits s
  | notify _ s resume => fits s → good s ∧ ∀ s', good s' → fits s' → (resume s').Always good fits

theorem always_bind {r : Run α} (always : r.Always good fits) {next : α → Space → Run β}
    (later : ∀ a s, good s → fits s → (next a s).Always good fits) :
    (r.bind next).Always good fits := by
  induction r with
  | done a s => exact later a s always.1 always.2
  | notify n s resume ih =>
    intro room
    obtain ⟨here, after⟩ := always room
    exact ⟨here, fun s' good' fits' => ih s' (after s' good' fits')⟩

end Run

namespace Op

/-- From a good space on, the space is good wherever the operation stops. -/
def Preserves (good fits : Space → Prop) (op : Op α) : Prop :=
  ∀ s, good s → fits s → (op s).Always good fits

theorem preserves_pure (a : α) : Preserves good fits (pure a : Op α) :=
  fun _ here room => ⟨here, room⟩

theorem preserves_read (f : Space → α) : Preserves good fits (read f) :=
  fun _ here room => ⟨here, room⟩

theorem preserves_notify (n : Notice) : Preserves good fits (notify n) :=
  fun _ here _ _ => ⟨here, fun _ here' room' => ⟨here', room'⟩⟩

theorem preserves_update {f : Space → Space × α}
    (kept : ∀ s, good s → fits s → good (f s).1 ∧ fits (f s).1) :
    Preserves good fits (update f) :=
  kept

theorem preserves_bind {op : Op α} {next : α → Op β} (first : Preserves good fits op)
    (later : ∀ a, Preserves good fits (next a)) : Preserves good fits (op >>= next) :=
  fun s here room => Run.always_bind (first s here room) later

/-- What is read of a good space may be used of that space. -/
theorem preserves_read_bind {f : Space → β} {next : β → Op α}
    (later : ∀ s, good s → fits s → (next (f s) s).Always good fits) :
    Preserves good fits (read f >>= next) :=
  later

theorem preserves_update_bind {f : Space → Space × β} {next : β → Op α}
    (later : ∀ s, good s → fits s → (next (f s).2 (f s).1).Always good fits) :
    Preserves good fits (update f >>= next) :=
  later

theorem preserves_ite {condition : Prop} [Decidable condition] {op op' : Op α}
    (first : Preserves good fits op) (second : Preserves good fits op') :
    Preserves good fits (if condition then op else op') := by
  split
  · exact first
  · exact second

theorem preserves_forEach_of_mem {γ : Type} {act : γ → Op Unit} {items : List γ}
    (each : ∀ item ∈ items, Preserves good fits (act item)) :
    Preserves good fits (forEach act items) := by
  induction items with
  | nil => exact preserves_pure ()
  | cons first rest ih =>
    exact preserves_bind (each first List.mem_cons_self) fun _ =>
      ih fun item member => each item (List.mem_cons_of_mem first member)

theorem preserves_forEach {γ : Type} {act : γ → Op Unit}
    (each : ∀ item, Preserves good fits (act item)) (items : List γ) :
    Preserves good fits (forEach act items) :=
  preserves_forEach_of_mem fun item _ => each item

theorem preserves_discard {op : Op α} (kept : Preserves good fits op) :
    Preserves good fits (discard op) :=
  preserves_bind kept fun _ => preserves_pure ()

end Op

end BinaryAtlas
