import BinaryAtlas.Proofs.Space.Records
import BinaryAtlas.Proofs.Undo.Histories

/-!
Under which name an identifier may be found, now and at each earlier or later state that the log
leads to. An identifier has one home at a time, so no two names share it.
-/

set_option autoImplicit false

namespace BinaryAtlas

abbrev Homes := Uuid → Option String

namespace Homes

variable {h h' : Homes} {types : Table String TypeRecord} {name : String}

/-- Each record is under the name that its identifier has as home. -/
def Lodges (h : Homes) (types : Table String TypeRecord) : Prop :=
  ∀ name r, types.get? name = some r → h r.id = some name

/-- Only identifiers that were issued have a home. -/
def Below (h : Homes) (issued : Nat) : Prop :=
  ∀ id name, h id = some name → id.value < (Uuid.fresh issued).value

def move (h : Homes) (id : Uuid) (home : Option String) : Homes :=
  fun other => if other = id then home else h other

@[simp] theorem move_same (h : Homes) (id : Uuid) (home : Option String) :
    h.move id home id = home :=
  if_pos rfl

theorem move_other (h : Homes) {id other : Uuid} (home : Option String) (apart : other ≠ id) :
    h.move id home other = h other :=
  if_neg apart

theorem Lodges.unique (lodges : h.Lodges types) {other : String} {r r' : TypeRecord}
    (held : types.get? name = some r) (held' : types.get? other = some r') (same : r.id = r'.id) :
    name = other := by
  have home := lodges name r held
  rw [same, lodges other r' held'] at home
  exact (Option.some.inj home).symm

theorem Lodges.alter (lodges : h.Lodges types) {state : Option TypeRecord}
    (home : ∀ r, state = some r → h r.id = some name) :
    h.Lodges (types.alter name fun _ => state) := by
  intro other r held
  rw [Table.get?_alter] at held
  split at held
  · rename_i here
    rw [home r held, here]
  · exact lodges other r held

/-- An identifier that no record bears may go anywhere. -/
theorem Lodges.move (lodges : h.Lodges types) {id : Uuid}
    (unborne : ∀ name r, types.get? name = some r → r.id ≠ id) (home : Option String) :
    (h.move id home).Lodges types := by
  intro name r held
  rw [move_other h home (unborne name r held)]
  exact lodges name r held

theorem Below.move {issued more : Nat} (below : h.Below issued) (le : issued ≤ more) {id : Uuid}
    (new : id.value < (Uuid.fresh more).value) (home : Option String) :
    (h.move id home).Below more := by
  intro other name there
  by_cases same : other = id
  · rw [same]
    exact new
  · rw [move_other h home same] at there
    have := below other name there
    simp only [Uuid.fresh] at this ⊢
    omega

end Homes

/-- The action is about a record with the identifier. -/
def UndoAction.bears (id : Uuid) : UndoAction → Bool
  | .type _ before after => before.any (·.id == id) || after.any (·.id == id)
  | _ => false

/-- How an action on a type changes the homes: what it takes away was at home under its name, what
it brings is so afterwards, and nothing comes to or leaves another name. -/
inductive Rehouses : Homes → UndoAction → Homes → Prop where
  | type {h h' : Homes} {name : String} {before after : Option TypeRecord}
      (left : ∀ r, before = some r → h r.id = some name)
      (came : ∀ r, after = some r → h' r.id = some name)
      (others : ∀ id other, other ≠ name → (h id = some other ↔ h' id = some other)) :
      Rehouses h (.type name before after) h'

namespace Rehouses

variable {h h' : Homes} {action : UndoAction}

theorem reversed (rehouses : Rehouses h action h') :
    Rehouses h' (Space.inverse action) h := by
  cases rehouses with
  | type left came others =>
    exact .type came left fun id other apart => (others id other apart).symm

theorem lodges {name : String} {before after : Option TypeRecord} {types : Table String TypeRecord}
    (rehouses : Rehouses h (.type name before after) h') (lodged : h.Lodges types) :
    h'.Lodges (types.alter name fun _ => after) := by
  cases rehouses with
  | type left came others =>
    intro other r held
    rw [Table.get?_alter] at held
    split at held
    · rename_i here
      rw [came r held, here]
    · rename_i apart
      exact (others r.id other apart).1 (lodged other r held)

theorem moved (rehouses : Rehouses h action h') {id : Uuid} (foreign : action.bears id = false)
    (home : Option String) : Rehouses (h.move id home) action (h'.move id home) := by
  cases rehouses with
  | @type _ name before after left came others =>
    simp only [UndoAction.bears, Bool.or_eq_false_iff] at foreign
    have apart {state : Option TypeRecord} (unborne : state.any (·.id == id) = false)
        (r : TypeRecord) (held : state = some r) : r.id ≠ id := by
      simpa [held] using unborne
    refine .type (fun r held => ?_) (fun r held => ?_) fun other place elsewhere => ?_
    · rw [Homes.move_other h home (apart foreign.1 r held)]
      exact left r held
    · rw [Homes.move_other h' home (apart foreign.2 r held)]
      exact came r held
    · by_cases same : other = id
      · rw [same, Homes.move_same, Homes.move_same]
      · rw [Homes.move_other h home same, Homes.move_other h' home same]
        exact others other place elsewhere

theorem still {name : String} {before after : Option TypeRecord}
    (left : ∀ r, before = some r → h r.id = some name)
    (came : ∀ r, after = some r → h r.id = some name) :
    Rehouses h (.type name before after) h :=
  .type left came fun _ _ _ => .rfl

/-- What an action bears had a home before it or has one after it. -/
theorem foreign_of_new (rehouses : Rehouses h action h') {issued : Nat} (below : h.Below issued)
    (below' : h'.Below issued) {id : Uuid} (new : (Uuid.fresh issued).value ≤ id.value) :
    action.bears id = false := by
  cases rehouses with
  | @type _ name before after left came others =>
    simp only [UndoAction.bears, Bool.or_eq_false_iff, Option.any_eq_false, beq_eq_false_iff_ne]
    constructor
    · rintro r held rfl
      exact absurd (below _ _ (left r held)) (by omega)
    · rintro r held rfl
      exact absurd (below' _ _ (came r held)) (by omega)

end Rehouses

/-- The homes along some actions, none of them before its identifier was issued. -/
inductive Trail (issued : Nat) : Homes → List UndoAction → Homes → Prop where
  | nil {h : Homes} (below : h.Below issued) : Trail issued h [] h
  | cons {h middle h' : Homes} {action : UndoAction} {rest : List UndoAction}
      (below : h.Below issued) (first : Rehouses h action middle)
      (later : Trail issued middle rest h') : Trail issued h (action :: rest) h'

namespace Trail

variable {issued : Nat} {h middle h' : Homes} {actions more : List UndoAction}
  {action : UndoAction}

theorem below_first (trail : Trail issued h actions h') : h.Below issued := by
  cases trail with
  | nil below => exact below
  | cons below _ _ => exact below

theorem single (below : h.Below issued) (below' : h'.Below issued)
    (rehouses : Rehouses h action h') : Trail issued h [action] h' :=
  .cons below rehouses (.nil below')

theorem append (first : Trail issued h actions middle) (second : Trail issued middle more h') :
    Trail issued h (actions ++ more) h' := by
  induction first with
  | nil _ => exact second
  | cons below rehouses _ ih => exact .cons below rehouses (ih second)

theorem split (trail : Trail issued h (actions ++ more) h') :
    ∃ middle, Trail issued h actions middle ∧ Trail issued middle more h' := by
  induction actions generalizing h with
  | nil => exact ⟨h, .nil trail.below_first, trail⟩
  | cons action rest ih =>
    cases trail with
    | cons below rehouses later =>
      obtain ⟨middle, front, back⟩ := ih later
      exact ⟨middle, .cons below rehouses front, back⟩

theorem reversed (trail : Trail issued h actions h') :
    Trail issued h' (actions.reverse.map Space.inverse) h := by
  induction trail with
  | nil below => exact .nil below
  | cons below rehouses later ih =>
    rw [List.reverse_cons, List.map_append]
    exact ih.append (.single later.below_first below rehouses.reversed)

/-- An identifier that no action bears may be moved all along. -/
theorem moved (trail : Trail issued h actions h') {id : Uuid}
    (foreign : ∀ action ∈ actions, action.bears id = false) {later : Nat} (le : issued ≤ later)
    (new : id.value < (Uuid.fresh later).value) (home : Option String) :
    Trail later (h.move id home) actions (h'.move id home) := by
  induction trail with
  | nil below => exact .nil (below.move le new home)
  | cons below rehouses _ ih =>
    refine .cons (below.move le new home) (rehouses.moved (foreign _ List.mem_cons_self) home) ?_
    exact ih fun action member => foreign action (List.mem_cons_of_mem _ member)

theorem foreign_of_new (trail : Trail issued h actions h') {id : Uuid}
    (new : (Uuid.fresh issued).value ≤ id.value) :
    ∀ action ∈ actions, action.bears id = false := by
  induction trail with
  | nil _ => exact fun _ member => nomatch member
  | cons below rehouses later ih =>
    exact List.forall_mem_cons.2
      ⟨rehouses.foreign_of_new below later.below_first new, ih⟩

/-- To replay the actions leads to a library that is at home where they lead. -/
theorem replays (trail : Trail issued h actions h') {s : Space}
    (lodged : h.Lodges s.metadata.types) :
    h'.Lodges ((Op.forEach Space.redoAction actions) s).collect.2.2.metadata.types ∧
      ((Op.forEach Space.redoAction actions) s).collect.2.2.undoLog = s.undoLog ∧
      ((Op.forEach Space.redoAction actions) s).collect.2.2.idsMade = s.idsMade := by
  induction trail generalizing s with
  | nil _ => exact ⟨lodged, rfl, rfl⟩
  | cons _ rehouses _ ih =>
    cases rehouses with
    | @type _ name before after left came others =>
      have settles := Space.restoreType_settles s name after
      obtain ⟨lodged, log', made'⟩ := ih (s := (Space.restoreType name after s).collect.2.2)
        (by rw [settles.types]; exact Rehouses.lodges (.type left came others) lodged)
      rw [Op.forEach, Op.collect_bind]
      exact ⟨lodged, log'.trans settles.undoLog, made'.trans settles.idsMade⟩

end Trail

end BinaryAtlas
