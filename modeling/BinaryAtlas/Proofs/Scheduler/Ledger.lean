import BinaryAtlas.Proofs.Scheduler.Interplay
import Mathlib.Data.List.Nodup
import Mathlib.Data.List.Perm.Basic

/-!
Keeping count of completion events. An event that waits is in one place, the queue, a hand or what a
drop still has to cancel, and an event that came to its end is in the history once. Every step makes
one of a few entries into such a ledger.
-/

set_option autoImplicit false

namespace BinaryAtlas

structure Ledger where
  queue : List Nat
  hands : List (List Nat)
  rest : List Nat
  waiting : List Bool
  history : List Ending
  owned : Bool

namespace Ledger

variable {l l' : Ledger} {event hand : Nat} {ending : Ending}

def isPending (l : Ledger) (event : Nat) : Bool := l.waiting.getD event false

/-- The events that someone may still come to. -/
def placed (l : Ledger) : List Nat := l.queue ++ l.rest ++ l.hands.flatten

def conclude (l : Ledger) (ending : Ending) : Ledger :=
  { l with waiting := l.waiting.set ending.event false,
           history := if l.isPending ending.event then l.history ++ [ending] else l.history }

@[simp]
theorem placed_conclude : (l.conclude ending).placed = l.placed := rfl

@[simp]
theorem length_waiting_conclude : (l.conclude ending).waiting.length = l.waiting.length :=
  List.length_set

theorem isPending_conclude :
    (l.conclude ending).isPending event = (event != ending.event && l.isPending event) := by
  unfold isPending conclude
  rw [List.getD_eq_getElem?_getD, List.getD_eq_getElem?_getD, List.getElem?_set]
  by_cases same : ending.event = event
  · simp only [same, if_true, bne_self_eq_false, Bool.false_and]
    split <;> rfl
  · simp [same, Ne.symm same]

theorem lt_of_isPending (pending : l.isPending event = true) : event < l.waiting.length := by
  by_contra beyond
  rw [isPending, List.getD_eq_getElem?_getD, List.getElem?_eq_none (Nat.le_of_not_lt beyond)]
    at pending
  cases pending

/-- A new event comes into the queue; of those that are there, `keep` tells which ones stay. -/
def add (l : Ledger) (keep : Nat → Bool) : Ledger :=
  { l with queue := l.queue.filter keep ++ [l.waiting.length], waiting := l.waiting ++ [true] }

theorem length_waiting_add {keep : Nat → Bool} :
    (l.add keep).waiting.length = l.waiting.length + 1 := by
  simp [add]

theorem isPending_add {keep : Nat → Bool} :
    (l.add keep).isPending event = (event == l.waiting.length || l.isPending event) := by
  simp only [isPending, add, List.getD_eq_getElem?_getD]
  rcases Nat.lt_trichotomy event l.waiting.length with before | rfl | beyond
  · rw [List.getElem?_append_left before]
    simp [Nat.ne_of_lt before]
  · simp
  · have outside : (l.waiting ++ [true]).length ≤ event := by
      rw [List.length_append]
      exact beyond
    rw [List.getElem?_eq_none outside, List.getElem?_eq_none (Nat.le_of_lt beyond)]
    simp [Nat.ne_of_gt beyond]

theorem placed_add_perm {keep : Nat → Bool} :
    (l.add keep).placed.Perm
      (l.waiting.length :: (l.queue.filter keep ++ l.rest ++ l.hands.flatten)) := by
  simp only [add, placed, List.append_assoc, List.singleton_append]
  exact List.perm_middle

/-- All that a step can do to the events. -/
inductive Entry : Ledger → Ledger → Prop where
  | nothing {l : Ledger} : Entry l l
  | added {l : Ledger} (owned : l.owned = true) {keep : Nat → Bool}
      (keeps : ∀ event, l.isPending event = true → keep event = true) :
      Entry l (l.add keep)
  | cancelled {l : Ledger} (event : Nat) : Entry l (l.conclude (.cancelled event))
  | taken {l : Ledger} : Entry l { l with queue := [], hands := l.hands ++ [l.queue] }
  | passed {l : Ledger} : Entry l { l with hands := l.hands ++ [[]] }
  | called {l : Ledger} {hand event : Nat} {rest : List Nat}
      (held : l.hands[hand]? = some (event :: rest)) :
      Entry l ({ l with hands := l.hands.set hand rest }.conclude (.called event hand))
  | dropped {l : Ledger} (none : l.rest = []) :
      Entry l { l with queue := [], rest := l.queue, owned := false }
  | dropCancelled {l : Ledger} {event : Nat} {rest : List Nat} (next : l.rest = event :: rest) :
      Entry l ({ l with rest := rest }.conclude (.cancelled event))

structure Kept (l : Ledger) : Prop where
  placed : l.placed.Nodup
  made : ∀ event ∈ l.placed, event < l.waiting.length
  pending : ∀ event, l.isPending event = true → event ∈ l.placed
  ended : (l.history.map Ending.event).Nodup
  ended_iff : ∀ event, event ∈ l.history.map Ending.event ↔
    event < l.waiting.length ∧ l.isPending event = false
  /-- Who calls an event takes it away, while one that is cancelled stays where it is. -/
  called : ∀ event hand, Ending.called event hand ∈ l.history → event ∉ l.placed

theorem Kept.of_perm (kept : l.Kept) (perm : l'.placed.Perm l.placed)
    (waiting : l'.waiting = l.waiting) (history : l'.history = l.history) : l'.Kept := by
  have pending : l'.isPending = l.isPending := by
    funext event
    rw [isPending, waiting, isPending]
  constructor
  · exact perm.nodup_iff.2 kept.placed
  · intro event member
    rw [waiting]
    exact kept.made event (perm.mem_iff.1 member)
  · intro event waits
    rw [pending] at waits
    exact perm.mem_iff.2 (kept.pending event waits)
  · rw [history]
    exact kept.ended
  · rw [history, waiting, pending]
    exact kept.ended_iff
  · intro event hand member present
    rw [history] at member
    exact kept.called event hand member (perm.mem_iff.1 present)

/-- An event comes to its end. Who calls it has taken it away before. -/
theorem Kept.concluded (kept : l.Kept) (nodup : l'.placed.Nodup)
    (fewer : ∀ event ∈ l'.placed, event ∈ l.placed)
    (others : ∀ event ∈ l.placed, event = ending.event ∨ event ∈ l'.placed)
    (gone : ∀ event hand, ending = .called event hand → event ∉ l'.placed)
    (waiting : l'.waiting = l.waiting) (history : l'.history = l.history) :
    (l'.conclude ending).Kept := by
  have pending : l'.isPending = l.isPending := by
    funext event
    rw [isPending, waiting, isPending]
  constructor
  · exact nodup
  · intro event member
    rw [length_waiting_conclude, waiting]
    exact kept.made event (fewer event member)
  · intro event waits
    rw [isPending_conclude, pending, Bool.and_eq_true, bne_iff_ne] at waits
    exact (others event (kept.pending event waits.2)).resolve_left waits.1
  · simp only [conclude, pending, history]
    split
    -- The history only grows by an event that still waited, which has no ending in it.
    · rename_i waits
      have fresh : ending.event ∉ l.history.map Ending.event := by
        intro member
        simp [((kept.ended_iff _).1 member).2] at waits
      rw [List.map_append, List.map_singleton, ← List.concat_eq_append]
      exact kept.ended.concat fresh
    · exact kept.ended
  · intro event
    rw [isPending_conclude, length_waiting_conclude, waiting, pending]
    simp only [conclude, pending, history]
    split
    · rename_i waits
      have made := lt_of_isPending waits
      rw [List.map_append, List.mem_append, kept.ended_iff]
      by_cases same : event = ending.event
      · simp [same, made]
      · simp [same]
    · rename_i ended
      rw [kept.ended_iff]
      by_cases same : event = ending.event
      · simp [same, ended]
      · simp [same]
  · intro event hand member present
    have before (earlier : Ending.called event hand ∈ l.history) : False :=
      kept.called event hand earlier (fewer event present)
    simp only [conclude, pending, history] at member
    split at member
    · rcases List.mem_append.1 member with earlier | now
      · exact before earlier
      · exact gone event hand (List.mem_singleton.1 now).symm present
    · exact before member

theorem Kept.concluded_of_perm (kept : l.Kept) (perm : l.placed.Perm (ending.event :: l'.placed))
    (waiting : l'.waiting = l.waiting) (history : l'.history = l.history) :
    (l'.conclude ending).Kept := by
  obtain ⟨gone, nodup⟩ := List.nodup_cons.1 (perm.nodup_iff.1 kept.placed)
  refine kept.concluded nodup (fun event member => ?_) (fun event member => ?_)
    (fun event hand same => ?_) waiting history
  · exact perm.mem_iff.2 (List.mem_cons_of_mem _ member)
  · exact List.mem_cons.1 (perm.mem_iff.1 member)
  · subst same
    exact gone

theorem flatten_set_perm {hands : List (List Nat)} {rest : List Nat}
    (held : hands[hand]? = some (event :: rest)) :
    hands.flatten.Perm (event :: (hands.set hand rest).flatten) := by
  induction hands generalizing hand with
  | nil => cases held
  | cons due others ih =>
    cases hand with
    | zero =>
      cases held
      exact .refl _
    | succ hand => exact ((ih held).append_left due).trans List.perm_middle

theorem Kept.add (kept : l.Kept) {keep : Nat → Bool}
    (keeps : ∀ event, l.isPending event = true → keep event = true) : (l.add keep).Kept := by
  have perm := @placed_add_perm l keep
  have sublist : (l.queue.filter keep ++ l.rest ++ l.hands.flatten).Sublist l.placed :=
    ((List.filter_sublist).append_right _).append_right _
  have placed_of (event : Nat) (member : event ∈ (l.add keep).placed) :
      event = l.waiting.length ∨ event ∈ l.placed :=
    (List.mem_cons.1 (perm.mem_iff.1 member)).imp_right (sublist.subset ·)
  constructor
  · rw [perm.nodup_iff, List.nodup_cons]
    exact ⟨fun member => absurd (kept.made _ (sublist.subset member)) (Nat.lt_irrefl _),
      kept.placed.sublist sublist⟩
  · intro event member
    rw [length_waiting_add]
    rcases placed_of event member with rfl | old
    · exact Nat.lt_succ_self _
    · exact Nat.lt_succ_of_lt (kept.made event old)
  · intro event waits
    rw [isPending_add, Bool.or_eq_true, beq_iff_eq] at waits
    rw [perm.mem_iff, List.mem_cons]
    refine waits.imp_right fun waits => ?_
    have held := kept.pending event waits
    simp only [Ledger.placed, List.mem_append, List.mem_filter] at held ⊢
    exact held.imp_left fun near => near.imp_left fun queued => ⟨queued, keeps event waits⟩
  · exact kept.ended
  · intro event
    show event ∈ l.history.map Ending.event ↔ _
    rw [kept.ended_iff, isPending_add, length_waiting_add]
    by_cases new : event = l.waiting.length
    · simp [new]
    · simp only [beq_eq_false_iff_ne.2 new, Bool.false_or]
      exact and_congr_left' (by omega)
  · intro event hand member present
    rcases placed_of event present with rfl | old
    · have before := (kept.ended_iff _).1 (List.mem_map_of_mem member)
      exact Nat.lt_irrefl _ before.1
    · exact kept.called event hand member old

theorem Entry.kept (entry : Entry l l') (kept : l.Kept) : l'.Kept := by
  cases entry with
  | nothing => exact kept
  | added owned keeps => exact kept.add keeps
  | cancelled event =>
    -- The event stays where it is, and is passed by when its turn comes.
    exact kept.concluded kept.placed (fun _ member => member) (fun _ member => .inr member)
      (fun _ _ other => nomatch other) rfl rfl
  | taken =>
    refine kept.of_perm ?_ rfl rfl
    simp only [Ledger.placed, List.nil_append, List.flatten_append, List.flatten_cons,
      List.flatten_nil, List.append_nil]
    rw [← List.append_assoc]
    exact (List.perm_append_comm).trans (by rw [List.append_assoc])
  | passed =>
    refine kept.of_perm ?_ rfl rfl
    simp [Ledger.placed]
  | called held =>
    refine kept.concluded_of_perm ?_ rfl rfl
    exact ((flatten_set_perm held).append_left _).trans List.perm_middle
  | dropped none =>
    refine kept.of_perm ?_ rfl rfl
    simp [Ledger.placed, none]
  | dropCancelled next =>
    refine kept.concluded_of_perm ?_ rfl rfl
    simp only [Ledger.placed, next, List.append_assoc, List.cons_append]
    exact List.perm_middle

theorem mem_history_conclude {other : Ending} (member : other ∈ l.history) :
    other ∈ (l.conclude ending).history := by
  simp only [conclude]
  split
  · exact List.mem_append_left _ member
  · exact member

/-- An event whose turn has come is called, unless it was cancelled before. -/
theorem Kept.calls (kept : l.Kept) (placed : event ∈ l.placed) :
    .called event hand ∈ (l.conclude (.called event hand)).history ∨
      .cancelled event ∈ (l.conclude (.called event hand)).history := by
  by_cases waits : l.isPending event = true
  · left
    simp only [conclude, Ending.event, waits, if_true]
    exact List.mem_append_right _ (List.mem_singleton_self _)
  · right
    rw [Bool.not_eq_true] at waits
    have ended := (kept.ended_iff event).2 ⟨kept.made event placed, waits⟩
    obtain ⟨ending, member, same⟩ := List.mem_map.1 ended
    cases ending with
    | called other earlier =>
      cases same
      exact absurd placed (kept.called other earlier member)
    | cancelled other =>
      cases same
      exact mem_history_conclude member

/-- Each of these events is still in the hand, or has been called from there, or was cancelled. -/
def Due (l : Ledger) (hand : Nat) (events : List Nat) : Prop :=
  ∃ left, l.hands[hand]? = some left ∧ ∀ event ∈ events,
    event ∈ left ∨ .called event hand ∈ l.history ∨ .cancelled event ∈ l.history

theorem Due.conclude {events : List Nat} (due : l.Due hand events) :
    (l.conclude ending).Due hand events := by
  obtain ⟨left, held, each⟩ := due
  exact ⟨left, held, fun event member => (each event member).imp_right
    (.imp mem_history_conclude mem_history_conclude)⟩

theorem Due.append {events : List Nat} (due : l.Due hand events) (more : List (List Nat)) :
    { l with hands := l.hands ++ more }.Due hand events := by
  obtain ⟨left, held, each⟩ := due
  have within := (List.getElem?_eq_some_iff.1 held).1
  exact ⟨left, (List.getElem?_append_left within).trans held, each⟩

theorem Due.call (kept : l.Kept) {events : List Nat} (due : l.Due hand events) {other : Nat}
    {rest : List Nat} (next : l.hands[other]? = some (event :: rest)) :
    ({ l with hands := l.hands.set other rest }.conclude (.called event other)).Due hand
      events := by
  by_cases same : other = hand
  · subst same
    obtain ⟨left, held, each⟩ := due
    cases next.symm.trans held
    have within := (List.getElem?_eq_some_iff.1 held).1
    refine ⟨rest, List.getElem?_set_self within, fun this member => ?_⟩
    have placed : event ∈ l.placed := List.mem_append_right _
      (List.mem_flatten.2 ⟨_, List.mem_of_getElem? held, List.mem_cons_self⟩)
    rcases each this member with inside | ended
    · rcases List.mem_cons.1 inside with rfl | later
      · exact .inr (kept.calls placed)
      · exact .inl later
    · exact .inr (ended.imp mem_history_conclude mem_history_conclude)
  -- A call from another hand leaves this one alone.
  · obtain ⟨left, held, each⟩ := due
    exact Due.conclude (l := { l with hands := l.hands.set other rest })
      ⟨left, (List.getElem?_set_ne same).trans held, each⟩

theorem Entry.due (entry : Entry l l') (kept : l.Kept) {events : List Nat}
    (due : l.Due hand events) : l'.Due hand events := by
  cases entry with
  | nothing => exact due
  | added => exact due
  | cancelled event => exact due.conclude
  | taken => exact due.append [l.queue]
  | passed => exact due.append [[]]
  | called held => exact due.call kept held
  | dropped => exact due
  | @dropCancelled event rest next => exact Due.conclude (l := { l with rest := rest }) due

/-- Once nothing waits and nothing can come any more, no entry adds to the history. -/
theorem Entry.settled (entry : Entry l l') (disowned : l.owned = false)
    (none : ∀ event, l.isPending event = false) :
    l'.owned = false ∧ (∀ event, l'.isPending event = false) ∧ l'.history = l.history := by
  have concluded (l : Ledger) (none : ∀ event, l.isPending event = false) (ending : Ending) :
      (∀ event, (l.conclude ending).isPending event = false) ∧
        (l.conclude ending).history = l.history := by
    refine ⟨fun event => ?_, ?_⟩
    · rw [isPending_conclude, none, Bool.and_false]
    · simp [conclude, none]
  cases entry with
  | nothing => exact ⟨disowned, none, rfl⟩
  | added owned => exact absurd (owned.symm.trans disowned) Bool.noConfusion
  | cancelled event => exact ⟨disowned, concluded l none _⟩
  | taken => exact ⟨disowned, none, rfl⟩
  | passed => exact ⟨disowned, none, rfl⟩
  | called => exact ⟨disowned, concluded _ none _⟩
  | dropped => exact ⟨rfl, none, rfl⟩
  | dropCancelled => exact ⟨disowned, concluded _ none _⟩

end Ledger

namespace Interplay

variable {c c' : Interplay} {step : Step}

def ledger (c : Interplay) : Ledger :=
  { queue := c.scheduler.queue
    hands := c.hands
    rest := c.release.rest
    waiting := c.scheduler.waiting
    history := c.history
    owned := c.release = .owned }

theorem ledger_conclude (c : Interplay) (ending : Ending) :
    (c.conclude ending).ledger = c.ledger.conclude ending := rfl

theorem abort_entry : Ledger.Entry c.ledger (c.take c.scheduler.abort).ledger := .taken

/-- The end of a pass takes the queue, or leaves it to another. -/
theorem finishPass_entry : Ledger.Entry c.ledger (c.take c.scheduler.finishPass).ledger := by
  rcases c.scheduler.finishPass_cases with ⟨-, -, taken⟩ | ⟨-, left⟩
  · rw [taken]
    exact .taken
  · rw [left]
    exact .passed

theorem step_entry (taken : c.step? step = some c') : Ledger.Entry c.ledger c'.ledger := by
  cases step with
  | schedule =>
    obtain ⟨-, rfl⟩ := of_guarded taken
    unfold Scheduler.schedule
    split <;> exact .nothing
  | setHold held =>
    obtain ⟨-, rfl⟩ := of_guarded taken
    exact .nothing
  | report told =>
    cases taken
    exact .nothing
  | add stale =>
    obtain ⟨owned, rfl⟩ := of_guarded taken
    exact .added (decide_eq_true owned) fun event waits => by
      rw [Bool.or_eq_true]
      exact .inl waits
  | cancel event =>
    cases taken
    exact .cancelled event
  | abort =>
    obtain ⟨-, rfl⟩ := of_guarded taken
    exact abort_entry
  | call hand =>
    simp only [step?] at taken
    split at taken
    · rename_i event rest held
      cases taken
      exact .called held
    · cases taken
  | spawn =>
    obtain ⟨-, rfl⟩ := of_guarded taken
    exact .nothing
  | pickUp =>
    obtain ⟨-, rfl⟩ := of_guarded taken
    exact .nothing
  | endPass =>
    obtain ⟨-, rfl⟩ := of_guarded taken
    exact finishPass_entry
  | settle =>
    simp only [step?] at taken
    split at taken
    · obtain ⟨-, rfl⟩ := of_guarded taken
      have same : (ledger { c with scheduler := c.scheduler.settle, worker := .waiting }) =
          c.ledger := by
        unfold ledger Scheduler.settle
        split <;> rfl
      rw [same]
      exact .nothing
    · cases taken
  | leave =>
    obtain ⟨-, rfl⟩ := of_guarded taken
    exact .nothing
  | drop byPass =>
    obtain ⟨⟨owned, -⟩, rfl⟩ := of_guarded taken
    have none : c.ledger.rest = [] := by simp [ledger, owned, Release.rest]
    exact .dropped none
  | dropCancel =>
    simp only [step?] at taken
    split at taken
    · rename_i event rest byPass releasing
      cases taken
      have next : c.ledger.rest = event :: rest := by simp [ledger, releasing, Release.rest]
      have same : (ledger { c with release := .releasing rest byPass }) =
          { c.ledger with rest := rest } := by
        simp [ledger, releasing, Release.rest]
      rw [ledger_conclude, same]
      exact .dropCancelled next
    · cases taken
  | dropReturn =>
    simp only [step?] at taken
    split at taken
    · rename_i byPass releasing
      obtain ⟨-, rfl⟩ := of_guarded taken
      have same : (ledger { c with release := .released }) = c.ledger := by
        simp [ledger, releasing, Release.rest]
      rw [same]
      exact .nothing
    · cases taken

end Interplay

end BinaryAtlas
