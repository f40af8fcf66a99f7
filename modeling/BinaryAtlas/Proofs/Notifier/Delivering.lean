import BinaryAtlas.Notifier
import BinaryAtlas.Proofs.Space.SegmentTable

/-!
Whom an event reaches. A listening is made to keep a journal of all that happens to its observers:
which of them are called and how their calls end, who joins and who leaves. The journal changes
nothing of what the observers do, and the list of observers, their numbers and the failures that are
counted are all as it tells.
-/

set_option autoImplicit false

namespace BinaryAtlas

namespace Notifier

variable {H : Type}

/-- The lists of observers that there can be, with the numbers given out on the way. -/
inductive Made : List Nat → Notifier H → Prop where
  | empty : Made [] .empty
  | register {issued : List Nat} {n : Notifier H} (made : Made issued n) (observer : H) :
    Made (issued ++ [(n.register observer).2]) (n.register observer).1
  | unregister {issued : List Nat} {n : Notifier H} (made : Made issued n) (id : Nat) :
    Made issued (n.unregister id).1
  | noteFailure {issued : List Nat} {n : Notifier H} (made : Made issued n) :
    Made issued n.noteFailure

variable {issued : List Nat} {n : Notifier H}

theorem Made.issued_eq (made : n.Made issued) : issued = List.range n.nextId := by
  induction made with
  | empty => rfl
  | register _ observer ih => rw [ih, Notifier.register, List.range_succ]
  | unregister _ id ih => exact ih
  | noteFailure _ ih => exact ih

/-- Who is registered stands in the order in which the numbers were given out. -/
theorem Made.sublist (made : n.Made issued) : (n.observers.map (·.1)).Sublist issued := by
  induction made with
  | empty => exact .refl _
  | register _ observer ih =>
    rw [Notifier.register, List.map_append]
    exact ih.append (.refl _)
  | unregister _ id ih => exact (List.filter_sublist.map _).trans ih
  | noteFailure _ ih => exact ih

theorem Made.ascending (made : n.Made issued) : issued.Pairwise (· < ·) :=
  made.issued_eq ▸ List.pairwise_lt_range

end Notifier

/-- What happens to observers. A call is as deep as there are calls around it. -/
inductive JournalEntry (H : Type) where
  | called (depth id : Nat) (observer : H) (event : ChangeEvent)
  | ended (depth id : Nat) (failed : Bool)
  | joined (id : Nat) (observer : H)
  | left (id : Nat)
  deriving DecidableEq

structure Journal (H : Type) where
  /-- How many calls have not ended. -/
  depth : Nat
  entries : List (JournalEntry H)

namespace JournalEntry

variable {H : Type}

def depth? : JournalEntry H → Option Nat
  | called depth _ _ _ => some depth
  | ended depth _ _ => some depth
  | _ => none

def isAt (depth : Nat) (entry : JournalEntry H) : Bool := entry.depth? == some depth

def failed : JournalEntry H → Bool
  | ended _ _ failed => failed
  | _ => false

def joined? : JournalEntry H → Option Nat
  | joined id _ => some id
  | _ => none

def change (observers : List (Nat × H)) : JournalEntry H → List (Nat × H)
  | joined id observer => observers ++ [(id, observer)]
  | left id => observers.filter (·.1 != id)
  | _ => observers

/-- The calls of one delivery, each over before the next begins. -/
def calls (depth : Nat) (event : ChangeEvent) (observers : List (Nat × H)) (outcomes : List Bool) :
    List (JournalEntry H) :=
  (observers.zip outcomes).flatMap fun call =>
    [called depth call.1.1 call.1.2 event, ended depth call.1.1 call.2]

end JournalEntry

namespace Journal

variable {H : Type}

def empty : Journal H := ⟨0, []⟩

def note (j : Journal H) (entry : JournalEntry H) : Journal H :=
  { j with entries := j.entries ++ [entry] }

def begin (j : Journal H) (id : Nat) (observer : H) (event : ChangeEvent) : Journal H :=
  ⟨j.depth + 1, j.entries ++ [.called j.depth id observer event]⟩

def finish (j : Journal H) (id : Nat) (failed : Bool) : Journal H :=
  ⟨j.depth - 1, j.entries ++ [.ended (j.depth - 1) id failed]⟩

end Journal

variable {H σ ρ : Type}

namespace Reaction

/-- The same reaction of the observer with the given number, which writes down how it ends and what
it does to the list of observers. -/
def journaled (number : Nat) : Reaction H σ ρ → Reaction H (σ × Journal H) ρ
  | done => .remember (fun m => (m.1, m.2.finish number false)) .done
  | fail => .remember (fun m => (m.1, m.2.finish number true)) .fail
  | remember change next => .remember (fun m => (change m.1, m.2)) (next.journaled number)
  | look next => .look fun a => (next ⟨a.notifier, a.memory.1⟩).journaled number
  | register observer next =>
    .register observer fun id =>
      .remember (fun m => (m.1, m.2.note (.joined id observer))) ((next id).journaled number)
  | unregister id next =>
    .unregister id fun found =>
      .remember (fun m => (m.1, m.2.note (.left id))) ((next found).journaled number)
  | perform operation next => .perform operation fun result => (next result).journaled number

end Reaction

namespace Listening

def journaled (l : Listening H σ ρ) : Listening H (σ × Journal H) ρ where
  react id observer event :=
    .remember (fun m => (m.1, m.2.begin id observer event))
      ((l.react id observer event).journaled id)
  complete event m := (l.complete event m.1, m.2)

/-- Events told one after the other. -/
def deliver (l : Listening H σ ρ) (depth : Nat) (events : List ChangeEvent) (s : Space)
    (a : Audience H σ) : Space × Audience H σ :=
  ((Op.forEach (fun event => .notify (.changed event)) events s).heard (l.tell depth) a).2

end Listening

/-! ## The journal changes nothing -/

def Audience.forget (a : Audience H (σ × Journal H)) : Audience H σ := ⟨a.notifier, a.memory.1⟩

theorem Run.heard_forget {α : Type} {tell : Notice → Space → Audience H σ → Space × Audience H σ}
    {tell' : Notice → Space → Audience H (σ × Journal H) → Space × Audience H (σ × Journal H)}
    (same : ∀ notice s a, (tell' notice s a).map id Audience.forget = tell notice s a.forget)
    (r : Run α) (a : Audience H (σ × Journal H)) :
    (r.heard tell' a).map id (Prod.map id Audience.forget) = r.heard tell a.forget := by
  induction r generalizing a with
  | done result s => rfl
  | notify notice s resume ih =>
    show ((resume (tell' notice s a).1).heard tell' (tell' notice s a).2).map _ _ =
      (resume (tell notice s a.forget).1).heard tell (tell notice s a.forget).2
    rw [ih, ← same]
    rfl

theorem Reaction.play_forget {run : Op ρ → Space → Audience H σ → ρ × Space × Audience H σ}
    {run' : Op ρ → Space → Audience H (σ × Journal H) → ρ × Space × Audience H (σ × Journal H)}
    (same : ∀ operation s a,
      (run' operation s a).map id (Prod.map id Audience.forget) = run operation s a.forget)
    (r : Reaction H σ ρ) (number : Nat) (s : Space) (a : Audience H (σ × Journal H)) :
    ((r.journaled number).play run' s a).map id Audience.forget = r.play run s a.forget := by
  induction r generalizing s a with
  | done => rfl
  | fail => rfl
  | remember change next ih => exact ih s _
  | look next ih => exact ih a.forget s a
  | register observer next ih => exact ih _ s _
  | unregister id next ih => exact ih _ s _
  | perform operation next ih =>
    show (((next (run' operation s a).1).journaled number).play run' (run' operation s a).2.1
      (run' operation s a).2.2).map _ _ =
        (next (run operation s a.forget).1).play run (run operation s a.forget).2.1
          (run operation s a.forget).2.2
    rw [ih, ← same]
    rfl

namespace Listening

variable (l : Listening H σ ρ)

theorem call_forget {run : Op ρ → Space → Audience H σ → ρ × Space × Audience H σ}
    {run' : Op ρ → Space → Audience H (σ × Journal H) → ρ × Space × Audience H (σ × Journal H)}
    (same : ∀ operation s a,
      (run' operation s a).map id (Prod.map id Audience.forget) = run operation s a.forget)
    (event : ChangeEvent) (observers : List (Nat × H)) (s : Space)
    (a : Audience H (σ × Journal H)) :
    (l.journaled.call run' event observers s a).map id Audience.forget =
      l.call run event observers s a.forget := by
  induction observers generalizing s a with
  | nil => rfl
  | cons first rest ih =>
    let begun : Audience H (σ × Journal H) :=
      { a with memory := (a.memory.1, a.memory.2.begin first.1 first.2 event) }
    have played := (l.react first.1 first.2 event).play_forget same first.1 s begun
    show (l.journaled.call run' event rest
      (((l.react first.1 first.2 event).journaled first.1).play run' s begun).1
      (((l.react first.1 first.2 event).journaled first.1).play run' s begun).2).map _ _ =
        l.call run event rest ((l.react first.1 first.2 event).play run s a.forget).1
          ((l.react first.1 first.2 event).play run s a.forget).2
    rw [ih, show a.forget = begun.forget from rfl, ← played]
    rfl

theorem tell_forget (depth : Nat) (notice : Notice) (s : Space)
    (a : Audience H (σ × Journal H)) :
    (l.journaled.tell depth notice s a).map id Audience.forget =
      l.tell depth notice s a.forget := by
  induction depth generalizing notice s a with
  | zero => rfl
  | succ depth ih =>
    cases notice with
    | changed event =>
      exact l.call_forget (fun operation s a => (operation s).heard_forget ih a) event _ s a
    | completed event => rfl

theorem deliver_forget (depth : Nat) (events : List ChangeEvent) (s : Space)
    (a : Audience H (σ × Journal H)) :
    (l.journaled.deliver depth events s a).map id Audience.forget =
      l.deliver depth events s a.forget :=
  congrArg Prod.snd (Run.heard_forget (l.tell_forget depth) _ a)

end Listening

/-! ## What the journal tells -/

/-- From one audience to a later one: what was written meanwhile, and that it tells all that became
of the list of observers. -/
structure Accounts (a b : Audience H (σ × Journal H)) (new : List (JournalEntry H)) : Prop where
  written : b.memory.2.entries = a.memory.2.entries ++ new
  observers : b.notifier.observers = new.foldl JournalEntry.change a.notifier.observers
  failures : b.notifier.failures = a.notifier.failures + new.countP (·.failed)
  made : ∀ issued, a.notifier.Made issued →
    b.notifier.Made (issued ++ new.filterMap JournalEntry.joined?)

namespace Accounts

variable {a b c : Audience H (σ × Journal H)} {new later : List (JournalEntry H)}

theorem of_same (notifier : b.notifier = a.notifier)
    (entries : b.memory.2.entries = a.memory.2.entries) : Accounts a b [] where
  written := by rw [entries, List.append_nil]
  observers := by rw [notifier, List.foldl_nil]
  failures := by rw [notifier, List.countP_nil, Nat.add_zero]
  made issued made := by rwa [notifier, List.filterMap_nil, List.append_nil]

theorem trans (first : Accounts a b new) (second : Accounts b c later) :
    Accounts a c (new ++ later) where
  written := by rw [second.written, first.written, List.append_assoc]
  observers := by rw [second.observers, first.observers, List.foldl_append]
  failures := by rw [second.failures, first.failures, List.countP_append, Nat.add_assoc]
  made issued made := by
    rw [List.filterMap_append, ← List.append_assoc]
    exact second.made _ (first.made issued made)

end Accounts

/-- What was written about calls is about calls inside of so many others. -/
def JournalEntry.Deep (depth : Nat) (new : List (JournalEntry H)) : Prop :=
  ∀ entry ∈ new, ∀ d ∈ entry.depth?, depth ≤ d

open JournalEntry

theorem JournalEntry.Deep.filter_isAt {depth : Nat} {new : List (JournalEntry H)}
    (deep : Deep (depth + 1) new) : new.filter (·.isAt depth) = [] := by
  rw [List.filter_eq_nil_iff]
  intro entry member here
  exact absurd (deep entry member depth (eq_of_beq here)) (Nat.not_succ_le_self depth)

theorem JournalEntry.Deep.weaken {depth shallower : Nat} {new : List (JournalEntry H)}
    (deep : Deep depth new) (less : shallower ≤ depth) : Deep shallower new :=
  fun entry member d here => Nat.le_trans less (deep entry member d here)

theorem JournalEntry.deep_one {depth : Nat} {entry : JournalEntry H}
    (deep : ∀ d ∈ entry.depth?, depth ≤ d) : Deep depth [entry] :=
  fun _ member => List.mem_singleton.1 member ▸ deep

theorem JournalEntry.Deep.append {depth : Nat} {new later : List (JournalEntry H)}
    (first : Deep depth new) (second : Deep depth later) : Deep depth (new ++ later) :=
  fun entry member => (List.mem_append.1 member).elim (first entry) (second entry)

/-- All that happened is accounted for, and no call is left open. -/
def Audience.Keeps (a b : Audience H (σ × Journal H)) : Prop :=
  b.memory.2.depth = a.memory.2.depth ∧
    ∃ new, Accounts a b new ∧ Deep a.memory.2.depth new

theorem Audience.Keeps.trans {a b c : Audience H (σ × Journal H)} (first : a.Keeps b)
    (second : b.Keeps c) : a.Keeps c := by
  obtain ⟨same, new, accounts, deep⟩ := first
  obtain ⟨same', later, accounts', deep'⟩ := second
  rw [same] at deep'
  exact ⟨same'.trans same, new ++ later, accounts.trans accounts', deep.append deep'⟩

/-- The observer's call, which is inside of so many others, goes on to its end. -/
def Audience.Closes (depth number : Nat) (a b : Audience H (σ × Journal H)) : Prop :=
  b.memory.2.depth = depth ∧
    ∃ inner failed, Accounts a b (inner ++ [.ended depth number failed]) ∧ Deep (depth + 1) inner

theorem Audience.Closes.after {depth number : Nat} {a b c : Audience H (σ × Journal H)}
    {new : List (JournalEntry H)} (first : Accounts a b new) (deep : Deep (depth + 1) new)
    (rest : b.Closes depth number c) : a.Closes depth number c := by
  obtain ⟨closed, inner, failed, accounts, deep'⟩ := rest
  refine ⟨closed, new ++ inner, failed, ?_, deep.append deep'⟩
  rw [List.append_assoc]
  exact first.trans accounts

theorem Run.heard_keeps {α : Type}
    {tell : Notice → Space → Audience H (σ × Journal H) → Space × Audience H (σ × Journal H)}
    (keeps : ∀ notice s a, Audience.Keeps a (tell notice s a).2) (r : Run α)
    (a : Audience H (σ × Journal H)) : a.Keeps (r.heard tell a).2.2 := by
  induction r generalizing a with
  | done result s => exact ⟨rfl, [], .of_same rfl rfl, List.forall_mem_nil _⟩
  | notify notice s resume ih => exact (keeps notice s a).trans (ih _ _)

section Calls

variable {run : Op ρ → Space → Audience H (σ × Journal H) → ρ × Space × Audience H (σ × Journal H)}

theorem Reaction.play_closes (keeps : ∀ operation s a, Audience.Keeps a (run operation s a).2.2)
    (r : Reaction H σ ρ) (number : Nat) (s : Space) (a : Audience H (σ × Journal H)) {depth : Nat}
    (inside : a.memory.2.depth = depth + 1) :
    a.Closes depth number ((r.journaled number).play run s a).2 := by
  have outside : a.memory.2.depth - 1 = depth := by rw [inside, Nat.add_sub_cancel]
  induction r generalizing s a with
  | done =>
    refine ⟨outside, [], false, ⟨?_, rfl, rfl, ?_⟩, List.forall_mem_nil _⟩
    · rw [← outside]
      rfl
    · exact fun issued made => (List.append_nil issued).symm ▸ made
  | fail =>
    refine ⟨outside, [], true, ⟨?_, rfl, rfl, ?_⟩, List.forall_mem_nil _⟩
    · rw [← outside]
      rfl
    · exact fun issued made => (List.append_nil issued).symm ▸ made.noteFailure
  | remember change next ih =>
    let b : Audience H (σ × Journal H) := { a with memory := (change a.memory.1, a.memory.2) }
    exact .after (b := b) (.of_same rfl rfl) (List.forall_mem_nil _) (ih s b inside outside)
  | look next ih => exact ih _ s a inside outside
  | register observer next ih =>
    let b : Audience H (σ × Journal H) :=
      ⟨(a.notifier.register observer).1,
        (a.memory.1, a.memory.2.note (.joined a.notifier.nextId observer))⟩
    have accounts : Accounts a b [.joined a.notifier.nextId observer] :=
      ⟨rfl, rfl, rfl, fun _ made => made.register observer⟩
    exact .after accounts (deep_one (by rintro d ⟨⟩)) (ih _ s b inside outside)
  | unregister id next ih =>
    let b : Audience H (σ × Journal H) :=
      ⟨(a.notifier.unregister id).1, (a.memory.1, a.memory.2.note (.left id))⟩
    have accounts : Accounts a b [.left id] :=
      ⟨rfl, rfl, rfl, fun issued made => (List.append_nil issued).symm ▸ made.unregister id⟩
    exact .after accounts (deep_one (by rintro d ⟨⟩)) (ih _ s b inside outside)
  | perform operation next ih =>
    obtain ⟨same, new, accounts, deep⟩ := keeps operation s a
    exact .after accounts (inside ▸ deep) (ih _ _ _ (same.trans inside) (by rw [same, outside]))

/-- One call, from its beginning to its end. -/
theorem Listening.react_accounts (l : Listening H σ ρ)
    (keeps : ∀ operation s a, Audience.Keeps a (run operation s a).2.2) (event : ChangeEvent)
    (id : Nat) (observer : H) (s : Space) (a : Audience H (σ × Journal H)) :
    ∃ inner failed,
      ((l.journaled.react id observer event).play run s a).2.memory.2.depth = a.memory.2.depth ∧
      Accounts a ((l.journaled.react id observer event).play run s a).2
        ([.called a.memory.2.depth id observer event] ++ (inner ++
          [.ended a.memory.2.depth id failed])) ∧
      Deep (a.memory.2.depth + 1) inner := by
  let b : Audience H (σ × Journal H) :=
    { a with memory := (a.memory.1, a.memory.2.begin id observer event) }
  have begun : Accounts a b [.called a.memory.2.depth id observer event] :=
    ⟨rfl, rfl, rfl, fun issued made => (List.append_nil issued).symm ▸ made⟩
  obtain ⟨closed, inner, failed, accounts, deep⟩ :=
    (l.react id observer event).play_closes keeps id s b rfl
  exact ⟨inner, failed, closed, begun.trans accounts, deep⟩

/-- Of the calls at the depth of a delivery, the journal holds one for each observer, in their
order. -/
theorem Listening.call_accounts (l : Listening H σ ρ)
    (keeps : ∀ operation s a, Audience.Keeps a (run operation s a).2.2) (event : ChangeEvent)
    (observers : List (Nat × H)) (s : Space) (a : Audience H (σ × Journal H)) :
    ∃ new outcomes,
      (l.journaled.call run event observers s a).2.memory.2.depth = a.memory.2.depth ∧
      Accounts a (l.journaled.call run event observers s a).2 new ∧ Deep a.memory.2.depth new ∧
      outcomes.length = observers.length ∧
      new.filter (·.isAt a.memory.2.depth) = calls a.memory.2.depth event observers outcomes := by
  induction observers generalizing s a with
  | nil => exact ⟨[], [], rfl, .of_same rfl rfl, List.forall_mem_nil _, rfl, rfl⟩
  | cons first rest ih =>
    obtain ⟨id, observer⟩ := first
    obtain ⟨inner, failed, closed, accounts, deep⟩ := l.react_accounts keeps event id observer s a
    obtain ⟨later, outcomes, closed', accounts', deep', matching, others⟩ :=
      ih ((l.journaled.react id observer event).play run s a).1
        ((l.journaled.react id observer event).play run s a).2
    rw [closed] at closed' deep' others
    refine ⟨_, failed :: outcomes, closed', accounts.trans accounts', ?_, congrArg (· + 1) matching,
      ?_⟩
    · have called : Deep a.memory.2.depth [.called a.memory.2.depth id observer event] :=
        deep_one (by rintro d ⟨⟩; exact Nat.le_refl _)
      have ended : Deep a.memory.2.depth [(.ended a.memory.2.depth id failed : JournalEntry H)] :=
        deep_one (by rintro d ⟨⟩; exact Nat.le_refl _)
      exact (called.append ((deep.weaken (Nat.le_succ _)).append ended)).append deep'
    · rw [List.filter_append, List.filter_append, List.filter_append, others, deep.filter_isAt]
      simp [isAt, depth?, calls]

end Calls

namespace Listening

variable (l : Listening H σ ρ)

/-- Deliveries leave no call open, also those inside of others. -/
theorem tell_keeps (depth : Nat) (notice : Notice) (s : Space) (a : Audience H (σ × Journal H)) :
    a.Keeps (l.journaled.tell depth notice s a).2 := by
  induction depth generalizing notice s a with
  | zero => exact ⟨rfl, [], .of_same rfl rfl, List.forall_mem_nil _⟩
  | succ depth ih =>
    cases notice with
    | changed event =>
      obtain ⟨new, _, closed, accounts, deep, _⟩ :=
        l.call_accounts (fun operation s a => (operation s).heard_keeps ih a) event
          a.notifier.observers s a
      exact ⟨closed, new, accounts, deep⟩
    | completed event => exact ⟨rfl, [], .of_same rfl rfl, List.forall_mem_nil _⟩

theorem deliver_snoc (depth : Nat) (earlier : List ChangeEvent) (event : ChangeEvent) (s : Space)
    (a : Audience H σ) :
    l.deliver depth (earlier ++ [event]) s a =
      l.tell depth (.changed event) (l.deliver depth earlier s a).1
        (l.deliver depth earlier s a).2 := by
  induction earlier generalizing s a with
  | nil => rfl
  | cons first rest ih => exact ih _ _

/-- Each of any number of events in a row reaches exactly those who are registered when its delivery
begins, one after the other in the order of their numbers, however the calls end and whatever the
observers do meanwhile. What they do to the list of observers shows in the next delivery. No number
is given out twice, and each call that fails is counted. -/
theorem events_reach_observers {issued : List Nat} (depth : Nat) (earlier : List ChangeEvent)
    (event : ChangeEvent) (s : Space) (a : Audience H (σ × Journal H))
    (made : a.notifier.Made issued) :
    ∃ s₁ s₂ before after past new outcomes,
      l.journaled.deliver (depth + 1) earlier s a = (s₁, before) ∧
      l.journaled.deliver (depth + 1) (earlier ++ [event]) s a = (s₂, after) ∧
      l.deliver (depth + 1) earlier s a.forget = (s₁, before.forget) ∧
      l.deliver (depth + 1) (earlier ++ [event]) s a.forget = (s₂, after.forget) ∧
      Accounts a before past ∧ Accounts before after new ∧
      outcomes.length = before.notifier.observers.length ∧
      new.filter (·.isAt a.memory.2.depth) =
        calls a.memory.2.depth event before.notifier.observers outcomes ∧
      (before.notifier.observers.map (·.1)).Pairwise (· < ·) ∧
      (issued ++ (past ++ new).filterMap JournalEntry.joined?).Pairwise (· < ·) := by
  let before := (l.journaled.deliver (depth + 1) earlier s a).2
  obtain ⟨same, past, accounts, -⟩ : a.Keeps before :=
    Run.heard_keeps (l.tell_keeps (depth + 1)) _ a
  obtain ⟨new, outcomes, -, accounts', -, matching, reached⟩ :=
    l.call_accounts (fun operation s a => (operation s).heard_keeps (l.tell_keeps depth) a) event
      before.notifier.observers (l.journaled.deliver (depth + 1) earlier s a).1 before
  rw [same] at reached
  have made' : before.notifier.Made _ := accounts.made issued made
  refine ⟨_, _, before, _, past, new, outcomes, rfl, l.journaled.deliver_snoc _ earlier event s a,
    (l.deliver_forget (depth + 1) earlier s a).symm, ?_, accounts, accounts', matching, reached,
    made'.ascending.sublist made'.sublist, ?_⟩
  · rw [← l.deliver_forget, deliver_snoc]
    rfl
  · rw [List.filterMap_append, ← List.append_assoc]
    exact (accounts'.made _ made').ascending

/-- The first observer removes the third and registers another one, the second one fails. -/
def restless : Listening Nat Unit Unit where
  react _ observer _ :=
    if observer = 0 then .unregister 2 fun _ => .register 3 fun _ => .done
    else if observer = 1 then .fail
    else .done
  complete _ memory := memory

def crowd : Notifier Nat := (((Notifier.empty.register 0).1.register 1).1.register 2).1

theorem restless_observers_reached :
    crowd.Made [0, 1, 2] ∧ ∃ (new : List (JournalEntry Nat)) (outcomes : List Bool),
      let start : Audience Nat (Unit × Journal Nat) := ⟨crowd, (), .empty⟩
      let before := (restless.journaled.deliver 1 [.functionAdded 0] Space.emptySpace start).2
      let after := (restless.journaled.deliver 1 [.functionAdded 0, .functionAdded 1]
        Space.emptySpace start).2
      before.notifier.observers = [(0, 0), (1, 1), (3, 3)] ∧ before.notifier.failures = 1 ∧
      after.notifier.observers = [(0, 0), (1, 1), (3, 3), (4, 3)] ∧
      after.notifier.failures = 2 ∧ Accounts before after new ∧ outcomes.length = 3 ∧
      new.filter (·.isAt 0) = calls 0 (.functionAdded 1) [(0, 0), (1, 1), (3, 3)] outcomes := by
  have made : crowd.Made [0, 1, 2] := ((Notifier.Made.empty.register 0).register 1).register 2
  obtain ⟨_, _, before, after, _, new, outcomes, first, second, -, -, -, accounts, length, reached,
    -⟩ := restless.events_reach_observers 0 [.functionAdded 0] (.functionAdded 1) Space.emptySpace
      ⟨crowd, (), .empty⟩ made
  cases first
  cases second
  exact ⟨made, new, outcomes, rfl, rfl, rfl, rfl, accounts, length, reached⟩

end Listening

end BinaryAtlas
