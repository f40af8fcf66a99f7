import BinaryAtlas.Proofs.Analysis.Running
import BinaryAtlas.Proofs.Space.Reaching

/-!
What a bulk block makes of an operation. Most operations neither look at what is kept back nor
change it, but by telling of changes: such an operation is blind. Within a block it does the same
and tells the same as outside of one, but that word of symbols is kept back, in its order.
-/

set_option autoImplicit false

namespace BinaryAtlas

namespace Notice

def isAboutSymbol : Notice → Bool
  | changed event => event.isAboutSymbol
  | completed _ => false

/-- The change of a symbol that a notice tells of. -/
def symbolChange? : Notice → Option ChangeEvent
  | changed event => if event.isAboutSymbol then some event else none
  | completed _ => none

theorem symbolChange?_eq_none {n : Notice} (plain : n.isAboutSymbol = false) :
    n.symbolChange? = none := by
  cases n with
  | changed event => exact if_neg (Bool.eq_false_iff.1 plain)
  | completed event => rfl

theorem isAboutSymbol_of_symbolChange? {n : Notice} {event : ChangeEvent}
    (about : n.symbolChange? = some event) : event.isAboutSymbol = true := by
  cases n with
  | changed other =>
    obtain ⟨symbol, rfl⟩ : other.isAboutSymbol = true ∧ other = event := by
      simpa [symbolChange?] using about
    exact symbol
  | completed other => cases about

end Notice

namespace SymbolBulk

variable (b : SymbolBulk)

/-- What is told at once of all that there is to tell. -/
def tells (notices : List Notice) : List Notice :=
  if b.depth = 0 then notices else notices.filter (!·.isAboutSymbol)

/-- What is kept back when there is something to tell. -/
def keeps (notices : List Notice) : SymbolBulk :=
  if b.depth = 0 then b else ⟨b.depth, b.deferred ++ notices.filterMap Notice.symbolChange?⟩

@[simp] theorem tells_nil : b.tells [] = [] := by
  unfold tells
  split <;> rfl

@[simp] theorem keeps_nil : b.keeps [] = b := by
  unfold keeps
  split
  · rfl
  · rw [List.filterMap_nil, List.append_nil]

@[simp] theorem depth_keeps (notices : List Notice) : (b.keeps notices).depth = b.depth := by
  unfold keeps
  split <;> rfl

theorem tells_append (first later : List Notice) :
    b.tells (first ++ later) = b.tells first ++ (b.keeps first).tells later := by
  unfold tells
  rw [depth_keeps]
  split
  · rfl
  · exact List.filter_append ..

theorem keeps_append (first later : List Notice) :
    b.keeps (first ++ later) = (b.keeps first).keeps later := by
  by_cases outside : b.depth = 0
  · simp [keeps, outside]
  · simp [keeps, outside, List.append_assoc]

theorem tells_plain {n : Notice} (plain : n.isAboutSymbol = false) : b.tells [n] = [n] := by
  unfold tells
  split
  · rfl
  · simp [plain]

theorem keeps_plain {n : Notice} (plain : n.isAboutSymbol = false) : b.keeps [n] = b := by
  unfold keeps
  split
  · rfl
  · simp [Notice.symbolChange?_eq_none plain]

end SymbolBulk

namespace Space

def withBulk (s : Space) (b : SymbolBulk) : Space := { s with bulk := b }

theorem withBulk_of_bulk {s : Space} {b : SymbolBulk} (same : s.bulk = b) : s.withBulk b = s := by
  subst same
  rfl

end Space

namespace Op

/-- An operation that does not look at what is kept back, and changes it only by telling. -/
inductive Blind : {α : Type} → Op α → Prop where
  | update {α : Type} {f : Space → Space × α}
      (same : ∀ s b, f (s.withBulk b) = ((f s).1.withBulk b, (f s).2)) : Blind (Op.update f)
  | tell (event : ChangeEvent) : Blind (Space.tell event)
  | notify {n : Notice} (plain : n.isAboutSymbol = false) : Blind (Op.notify n)
  | bind {α β : Type} {op : Op α} {next : α → Op β} (first : Blind op)
      (later : ∀ a, Blind (next a)) : Blind (op >>= next)

variable {α β : Type}

/-- Outside of a block nothing is kept back. Wherever something is, the operation does what it does
there, and of all that it has to tell nothing but word of symbols waits. -/
def Delays (op : Op α) : Prop :=
  ∀ s : Space, s.bulk = ⟨0, []⟩ → (op s).collect.2.2.bulk = ⟨0, []⟩ ∧
    ∀ b : SymbolBulk, (op (s.withBulk b)).collect =
      (b.tells (op s).collect.1, (op s).collect.2.1,
        (op s).collect.2.2.withBulk (b.keeps (op s).collect.1))

theorem update_delays {f : Space → Space × α}
    (same : ∀ s b, f (s.withBulk b) = ((f s).1.withBulk b, (f s).2)) : Delays (update f) := by
  intro s outside
  refine ⟨?_, fun b => ?_⟩
  · show (f s).1.bulk = _
    rw [← Space.withBulk_of_bulk outside, same]
    rfl
  · show ([], (f (s.withBulk b)).2, (f (s.withBulk b)).1) =
      (b.tells [], (f s).2, (f s).1.withBulk (b.keeps []))
    rw [same, SymbolBulk.tells_nil, SymbolBulk.keeps_nil]

theorem notify_delays {n : Notice} (plain : n.isAboutSymbol = false) : Delays (notify n) := by
  refine fun s outside => ⟨outside, fun b => ?_⟩
  show ([n], (), s.withBulk b) = (b.tells [n], (), s.withBulk (b.keeps [n]))
  rw [b.tells_plain plain, b.keeps_plain plain]

theorem tell_delays (event : ChangeEvent) : Delays (Space.tell event) := by
  intro s outside
  have once : Space.tell event s = notify (.changed event) s :=
    Space.tell_at_once (.inr (congrArg SymbolBulk.depth outside))
  rw [once]
  refine ⟨outside, fun b => ?_⟩
  by_cases free : event.isAboutSymbol = false ∨ b.depth = 0
  · rw [Space.tell_at_once free]
    show ([Notice.changed event], (), s.withBulk b) = (b.tells [_], (), s.withBulk (b.keeps [_]))
    rcases free with other | outside
    · have plain : (Notice.changed event).isAboutSymbol = false := other
      rw [b.tells_plain plain, b.keeps_plain plain]
    · rw [SymbolBulk.tells, SymbolBulk.keeps, if_pos outside, if_pos outside]
  · obtain ⟨about, inside⟩ := not_or.1 free
    rw [Space.tell_later (by simpa using about) (Nat.pos_of_ne_zero inside)]
    show ([], (), s.withBulk ⟨b.depth, b.deferred ++ [event]⟩) =
      (b.tells [.changed event], (), s.withBulk (b.keeps [.changed event]))
    rw [SymbolBulk.tells, SymbolBulk.keeps, if_neg inside, if_neg inside]
    simp [Notice.isAboutSymbol, Notice.symbolChange?, about]

theorem Delays.bind {op : Op α} {next : α → Op β} (first : Delays op)
    (later : ∀ a, Delays (next a)) : Delays (op >>= next) := by
  intro s outside
  have whole (s : Space) : ((op >>= next) s).collect = _ := Run.collect_bind (op s) next
  obtain ⟨outside', same⟩ := first s outside
  obtain ⟨outside'', same'⟩ := later (op s).collect.2.1 (op s).collect.2.2 outside'
  refine ⟨by rw [whole]; exact outside'', fun b => ?_⟩
  -- What follows starts with more kept back than there was at first.
  rw [whole, whole, same, same', SymbolBulk.tells_append, SymbolBulk.keeps_append]

theorem Blind.delays {op : Op α} (blind : op.Blind) : Delays op := by
  induction blind with
  | update same => exact update_delays same
  | tell event => exact tell_delays event
  | notify plain => exact notify_delays plain
  | bind _ _ first later => exact first.bind later

theorem blind_pure (a : α) : Blind (pure a : Op α) :=
  .update (f := fun s => (s, a)) fun _ _ => rfl

theorem blind_read {f : Space → α} (same : ∀ s b, f (s.withBulk b) = f s) : Blind (read f) :=
  .update (f := fun s => (s, f s)) fun s b => by rw [same]

theorem blind_modify {f : Space → Space} (same : ∀ s b, f (s.withBulk b) = (f s).withBulk b) :
    Blind (modify f) :=
  .update (f := fun s => (f s, ())) fun s b => by rw [same]

theorem blind_ite {condition : Prop} [Decidable condition] {op op' : Op α} (first : Blind op)
    (second : Blind op') : Blind (if condition then op else op') := by
  split
  · exact first
  · exact second

theorem blind_forEach {γ : Type} {act : γ → Op Unit} (each : ∀ item, Blind (act item))
    (items : List γ) : Blind (forEach act items) := by
  induction items with
  | nil => exact blind_pure ()
  | cons first rest ih => exact (each first).bind fun _ => ih

theorem blind_discard {op : Op α} (blind : Blind op) : Blind (discard op) :=
  blind.bind fun _ => blind_pure ()

end Op

end BinaryAtlas
