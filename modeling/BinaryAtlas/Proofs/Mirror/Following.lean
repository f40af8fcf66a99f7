import BinaryAtlas.Proofs.Mirror.Copy
import BinaryAtlas.Proofs.Space.Settling

/-!
What an operation does to a copy that follows what is told. While symbol events are kept back, the
copy meant is the one that they will lead to.
-/

set_option autoImplicit false

namespace BinaryAtlas

namespace Run

variable {α β : Type} {good : Space → Prop} {goal goal' : α → Space → Prop} {r : Run α}

/-- Whoever listens may change the space, but leaves it good; then the run finds it good whenever it
tells of something, and ends as the goal says. -/
def Reaches (good : Space → Prop) (goal : α → Space → Prop) : Run α → Prop
  | done a s => goal a s
  | notify _ s resume => good s ∧ ∀ s', good s' → (resume s').Reaches good goal

theorem reaches_bind {next : α → Space → Run β} {goal : β → Space → Prop}
    (first : r.Reaches good fun a s => (next a s).Reaches good goal) :
    (r.bind next).Reaches good goal := by
  induction r with
  | done a s => exact first
  | notify n s resume ih => exact ⟨first.1, fun s' here => ih s' (first.2 s' here)⟩

theorem Reaches.mono (reaches : r.Reaches good goal) (weaker : ∀ a s, goal a s → goal' a s) :
    r.Reaches good goal' := by
  induction r with
  | done a s => exact weaker a s reaches
  | notify n s resume ih => exact ⟨reaches.1, fun s' here => ih s' (reaches.2 s' here)⟩

end Run

namespace Op

variable {α β : Type} {s : Space} {copy : Mirror} {goal goal' : α → Space → Mirror → Prop}

section Tells

/-- From a space and a copy on, an operation leads to an answer, a space and a copy as the goal
says. Those who listen only take note. -/
def Tells (op : Op α) (s : Space) (copy : Mirror) (goal : α → Space → Mirror → Prop) : Prop :=
  s.bulk.Sound → ∀ m : Mirror, m.hearAll s.bulk.deferred = copy →
    (op s).collect.2.2.bulk.Sound ∧
      goal (op s).collect.2.1 (op s).collect.2.2
        ((m.follow (op s).collect.1).hearAll (op s).collect.2.2.bulk.deferred)

theorem tells_bind {op : Op β} {next : β → Op α}
    (first : op.Tells s copy fun b s' copy' => (next b).Tells s' copy' goal) :
    (op >>= next).Tells s copy goal := by
  intro sound m heard
  obtain ⟨sound', later⟩ := first sound m heard
  have whole : ((op >>= next) s).collect = _ := Run.collect_bind (op s) next
  rw [whole, Mirror.follow_append]
  exact later sound' _ rfl

theorem Tells.mono {op : Op α} (tells : op.Tells s copy goal)
    (weaker : ∀ a s m, goal a s m → goal' a s m) : op.Tells s copy goal' := fun sound m heard =>
  ⟨(tells sound m heard).1, weaker _ _ _ (tells sound m heard).2⟩

theorem tells_update {f : Space → Space × α} (bulk : (f s).1.bulk = s.bulk)
    (here : goal (f s).2 (f s).1 copy) : (update f).Tells s copy goal := by
  rintro sound m rfl
  show (f s).1.bulk.Sound ∧ goal (f s).2 (f s).1 (m.hearAll (f s).1.bulk.deferred)
  rw [bulk]
  exact ⟨sound, here⟩

theorem tells_changed {event : ChangeEvent} {goal : Unit → Space → Mirror → Prop}
    (other : event.isAboutSymbol = false) (here : goal () s (copy.hear event)) :
    (notify (.changed event)).Tells s copy goal := by
  rintro sound m rfl
  rw [← Mirror.hearAll_comm sound.symbols other] at here
  exact ⟨sound, here⟩

end Tells

/-- An operation leads to the goal where those who listen only take note, and to one of its spaces
where they change what is in its place. -/
structure Leads (op : Op α) (s : Space) (copy : Mirror) (goal : α → Space → Mirror → Prop) :
    Prop where
  tells : op.Tells s copy goal
  reaches : (op s).Reaches Space.Keyed fun a s' => ∃ copy', goal a s' copy'

theorem leads_bind {op : Op β} {next : β → Op α}
    (first : op.Leads s copy fun b s' copy' => (next b).Leads s' copy' goal) :
    (op >>= next).Leads s copy goal where
  tells := tells_bind (first.tells.mono fun _ _ _ later => later.tells)
  reaches := Run.reaches_bind (first.reaches.mono fun _ _ ⟨_, later⟩ => later.reaches)

theorem Leads.mono {op : Op α} (leads : op.Leads s copy goal)
    (weaker : ∀ a s m, goal a s m → goal' a s m) : op.Leads s copy goal' where
  tells := leads.tells.mono weaker
  reaches := leads.reaches.mono fun a s ⟨m, here⟩ => ⟨m, weaker a s m here⟩

theorem leads_update {f : Space → Space × α} (bulk : (f s).1.bulk = s.bulk)
    (here : goal (f s).2 (f s).1 copy) : (update f).Leads s copy goal :=
  ⟨tells_update bulk here, ⟨copy, here⟩⟩

theorem leads_pure {a : α} (here : goal a s copy) : (pure a : Op α).Leads s copy goal :=
  leads_update (f := fun s => (s, a)) rfl here

theorem leads_modify {f : Space → Space} {goal : Unit → Space → Mirror → Prop}
    (bulk : (f s).bulk = s.bulk) (here : goal () (f s) copy) : (modify f).Leads s copy goal :=
  leads_update (f := fun s => (f s, ())) bulk here

theorem leads_update_bind {f : Space → Space × β} {next : β → Op α} (bulk : (f s).1.bulk = s.bulk)
    (later : (next (f s).2).Leads (f s).1 copy goal) : (update f >>= next).Leads s copy goal :=
  leads_bind (leads_update bulk later)

theorem leads_modify_bind {f : Space → Space} {next : Unit → Op α} (bulk : (f s).bulk = s.bulk)
    (later : (next ()).Leads (f s) copy goal) : (modify f >>= next).Leads s copy goal :=
  leads_bind (leads_modify bulk later)

theorem leads_read_bind {f : Space → β} {next : β → Op α}
    (later : (next (f s)).Leads s copy goal) : (read f >>= next).Leads s copy goal :=
  leads_update_bind (f := fun s => (s, f s)) rfl later

end Op

/-- The copy agrees with a space in which everything has its place. -/
def Follows {α : Type} (_ : α) (s : Space) (copy : Mirror) : Prop :=
  s.Keyed ∧ copy = s.mirror

namespace Op

variable {α β : Type} {s : Space} {copy : Mirror}

/-- A copy that agrees with a space before an operation does so after it. -/
def Mirrored (op : Op α) : Prop := ∀ s : Space, s.Keyed → op.Leads s s.mirror Follows

theorem follows_bind {op : Op β} {next : β → Op α} (first : op.Leads s copy Follows)
    (later : ∀ b, Mirrored (next b)) : (op >>= next).Leads s copy Follows := by
  refine leads_bind (first.mono fun b s' copy' now => ?_)
  obtain ⟨keyed, rfl⟩ := now
  exact later b s' keyed

theorem mirrored_bind {op : Op β} {next : β → Op α} (first : Mirrored op)
    (later : ∀ b, Mirrored (next b)) : Mirrored (op >>= next) :=
  fun s keyed => follows_bind (first s keyed) later

theorem mirrored_pure (a : α) : Mirrored (pure a : Op α) :=
  fun _ keyed => leads_pure ⟨keyed, rfl⟩

theorem mirrored_read (f : Space → α) : Mirrored (read f) :=
  fun _ keyed => leads_update (f := fun s => (s, f s)) rfl ⟨keyed, rfl⟩

theorem mirrored_ite {condition : Prop} [Decidable condition] {op op' : Op α}
    (first : Mirrored op) (second : Mirrored op') :
    Mirrored (if condition then op else op') := by
  split
  · exact first
  · exact second

theorem mirrored_forEach {γ : Type} {act : γ → Op Unit} {items : List γ}
    (each : ∀ item ∈ items, Mirrored (act item)) : Mirrored (forEach act items) := by
  induction items with
  | nil => exact mirrored_pure ()
  | cons first rest ih =>
    exact mirrored_bind (each first List.mem_cons_self) fun _ =>
      ih fun item member => each item (List.mem_cons_of_mem _ member)

theorem mirrored_discard {op : Op α} (mirrored : Mirrored op) : Mirrored (discard op) :=
  mirrored_bind mirrored fun _ => mirrored_pure ()

theorem mirrored_update {f : Space → Space × α}
    (same : ∀ s, (f s).1.map = s.map ∧ (f s).1.metadata = s.metadata ∧
      (f s).1.undoLog = s.undoLog ∧ (f s).1.bulk = s.bulk) : Mirrored (update f) := by
  intro s keyed
  obtain ⟨map, metadata, undoLog, bulk⟩ := same s
  refine leads_update bulk ⟨⟨?_, ?_, ?_⟩, ?_⟩
  · rw [map]
    exact keyed.map
  · rw [metadata]
    exact keyed.metadata
  · rw [undoLog]
    exact keyed.undoLog
  · simp only [Space.mirror, map, metadata]

theorem mirrored_modify {f : Space → Space}
    (same : ∀ s, (f s).map = s.map ∧ (f s).metadata = s.metadata ∧
      (f s).undoLog = s.undoLog ∧ (f s).bulk = s.bulk) : Mirrored (modify f) :=
  mirrored_update (f := fun s => (f s, ())) same

theorem mirrored_completed (event : Nat) : Mirrored (notify (.completed event)) :=
  fun _ keyed => ⟨fun sound _ heard => ⟨sound, keyed, heard⟩,
    ⟨keyed, fun s' keyed' => ⟨s'.mirror, keyed', rfl⟩⟩⟩

end Op

namespace Space

open Op

variable {α : Type} {s : Space} {copy : Mirror}

theorem noted_keyed (keyed : s.Keyed) (condition : Bool) {action : UndoAction}
    (own : action.Keyed) : (noted condition action s).Keyed := by
  refine ⟨keyed.map, keyed.metadata, ?_⟩
  cases condition with
  | true => exact UndoLog.record_keyed keyed.undoLog own
  | false => exact keyed.undoLog

theorem withMetadata_keyed (keyed : s.Keyed) {metadata : Metadata} (own : metadata.Keyed) :
    Keyed { s with metadata := metadata } :=
  ⟨keyed.map, own, keyed.undoLog⟩

theorem recordIf_bind_leads {goal : α → Space → Mirror → Prop} {condition : Bool}
    {action : UndoAction} {next : Unit → Op α}
    (later : (next ()).Leads (noted condition action s) copy goal) :
    (recordIf condition action >>= next).Leads s copy goal := by
  cases condition with
  | true => exact leads_modify_bind rfl later
  | false => exact leads_bind (leads_pure later)

theorem editMetadata_mirrored {f : Metadata → Metadata}
    (same : ∀ m : Metadata, m.SameRecords (f m)) : Mirrored (editMetadata f) := by
  intro s keyed
  have here := same s.metadata
  refine leads_modify rfl ⟨⟨keyed.map, here.keyed keyed.metadata, keyed.undoLog⟩, ?_⟩
  simp only [mirror, here.dataVariables, here.symbols, here.types, here.tags, here.strings]

section Telling

variable {goal : Unit → Space → Mirror → Prop}

theorem tell_tells {event : ChangeEvent}
    (here : ∀ bulk, goal () { s with bulk := bulk } (copy.hear event)) :
    (tell event).Tells s copy goal := by
  cases about : event.isAboutSymbol with
  | false =>
    unfold Tells
    rw [tell_at_once (.inl about)]
    exact tells_changed about (here s.bulk)
  | true =>
    rintro sound m rfl
    rcases Nat.eq_zero_or_pos s.bulk.depth with outside | inside
    · -- Nothing is kept back, so the event is heard by the copy that agrees.
      have nothing := sound.closed outside
      rw [tell_at_once (.inr outside)]
      refine ⟨sound, ?_⟩
      show goal () s ((m.hear event).hearAll s.bulk.deferred)
      have now := here s.bulk
      rw [nothing] at now ⊢
      exact now
    · -- The event joins those that are kept back, and will be heard behind them.
      rw [tell_later about inside]
      refine ⟨SymbolBulk.defer_sound sound inside about, ?_⟩
      show goal () _ (m.hearAll (s.bulk.deferred ++ [event]))
      rw [Mirror.hearAll_append]
      exact here _

theorem tellQuietly_tells {events : List ChangeEvent}
    (here : ∀ bulk, goal () { s with bulk := bulk } (copy.hearAll events)) :
    (tellQuietly events).Tells s copy goal := by
  induction events generalizing s copy with
  | nil => exact tells_update (f := fun s => (s, ())) rfl (here s.bulk)
  | cons event rest ih =>
    exact tells_bind (tell_tells fun bulk => ih fun later => here later)

theorem tell_reaches (keyed : s.Keyed) (event : ChangeEvent) :
    (tell event s).Reaches Keyed fun _ s' => s'.Keyed := by
  show ((if (event.isAboutSymbol && decide (0 < s.bulk.depth)) = true then _ else _ : Op Unit)
    s).Reaches _ _
  split
  · exact ⟨keyed.map, keyed.metadata, keyed.undoLog⟩
  · exact ⟨keyed, fun _ keyed' => keyed'⟩

theorem tellQuietly_reaches (keyed : s.Keyed) (events : List ChangeEvent) :
    (tellQuietly events s).Reaches Keyed fun _ s' => s'.Keyed := by
  induction events generalizing s with
  | nil => exact keyed
  | cons event rest ih =>
    exact Run.reaches_bind ((tell_reaches keyed event).mono fun _ _ keyed' => ih keyed')

theorem tellQuietly_follows {events : List ChangeEvent} (keyed : s.Keyed)
    (heard : copy.hearAll events = s.mirror) : (tellQuietly events).Leads s copy Follows where
  tells := tellQuietly_tells fun _ => ⟨⟨keyed.map, keyed.metadata, keyed.undoLog⟩, heard⟩
  reaches := (tellQuietly_reaches keyed events).mono fun _ s' keyed' => ⟨s'.mirror, keyed', rfl⟩

theorem emit_follows {events : List ChangeEvent} (keyed : s.Keyed)
    (heard : copy.hearAll events = s.mirror) : (emit events).Leads s copy Follows :=
  follows_bind (tellQuietly_follows keyed heard) fun _ => mirrored_bind (mirrored_read _) fun _ =>
    mirrored_ite (mirrored_modify fun _ => ⟨rfl, rfl, rfl, rfl⟩) (mirrored_pure ())

end Telling

theorem emit_mirrored {events : List ChangeEvent}
    (silent : ∀ m : Mirror, m.hearAll events = m) : Mirrored (emit events) :=
  fun s keyed => emit_follows keyed (silent s.mirror)

theorem tellQuietly_mirrored {events : List ChangeEvent}
    (silent : ∀ m : Mirror, m.hearAll events = m) : Mirrored (tellQuietly events) :=
  fun s keyed => tellQuietly_follows keyed (silent s.mirror)

theorem record_mirrored {action : UndoAction} (own : action.Keyed) : Mirrored (record action) :=
  fun _ keyed => leads_modify rfl ⟨noted_keyed keyed true own, rfl⟩

theorem recordIf_mirrored (condition : Bool) {action : UndoAction} (own : action.Keyed) :
    Mirrored (recordIf condition action) :=
  mirrored_ite (record_mirrored own) (mirrored_pure ())

theorem told_follows {condition : Bool} {action : UndoAction} {events : List ChangeEvent}
    (keyed : s.Keyed) (own : action.Keyed) (heard : copy.hearAll events = s.mirror) (answer : α) :
    (do recordIf condition action; emit events; pure answer : Op α).Leads s copy Follows :=
  recordIf_bind_leads (follows_bind (emit_follows (noted_keyed keyed condition own) heard)
    fun _ => mirrored_pure answer)

theorem freshId_mirrored : Mirrored freshId := mirrored_update fun _ => ⟨rfl, rfl, rfl, rfl⟩

section Bulk

theorem collect_notifyAll (events : List ChangeEvent) (s : Space) :
    (forEach (fun event => notify (.changed event)) events s).collect =
      (events.map Notice.changed, (), s) := by
  induction events with
  | nil => rfl
  | cons event rest ih =>
    have whole : (forEach (fun event => notify (.changed event)) (event :: rest) s).collect =
      _ := Run.collect_bind (notify (.changed event) s)
        fun _ => forEach (fun event => notify (.changed event)) rest
    rw [whole]
    show (.changed event :: (forEach _ rest s).collect.1, (forEach _ rest s).collect.2) = _
    rw [ih]
    rfl

theorem notifyAll_reaches (keyed : s.Keyed) (events : List ChangeEvent) :
    (forEach (fun event => notify (.changed event)) events s).Reaches Keyed fun _ s' =>
      s'.Keyed := by
  induction events generalizing s with
  | nil => exact keyed
  | cons event rest ih => exact ⟨keyed, fun s' keyed' => ih keyed'⟩

theorem withBulk_keyed (keyed : s.Keyed) (bulk : SymbolBulk) : Keyed { s with bulk := bulk } :=
  ⟨keyed.map, keyed.metadata, keyed.undoLog⟩

theorem beginBulk_mirrored : Mirrored beginBulk := fun s keyed =>
  ⟨fun sound _ heard => ⟨SymbolBulk.sound_inside sound s.bulk.depth, withBulk_keyed keyed _, heard⟩,
    ⟨s.mirror, withBulk_keyed keyed _, rfl⟩⟩

theorem endBulk_mirrored : Mirrored endBulk := by
  intro s keyed
  refine leads_read_bind ?_
  split
  · exact leads_pure ⟨keyed, rfl⟩
  · -- The outermost block ends: what was kept back is told, which is what the copy waited for.
    refine ⟨fun sound m heard => ?_, ?_⟩
    · have told : ((do
          let deferred ← Op.read (·.bulk.deferred)
          modify fun s => { s with bulk := ⟨0, []⟩ }
          forEach (fun event => notify (.changed event)) deferred : Op Unit) s).collect =
            (s.bulk.deferred.map Notice.changed, (), { s with bulk := ⟨0, []⟩ }) :=
        collect_notifyAll s.bulk.deferred { s with bulk := ⟨0, []⟩ }
      rw [told, Mirror.follow_changed, heard]
      exact ⟨SymbolBulk.closed_sound, withBulk_keyed keyed _, rfl⟩
    · exact (notifyAll_reaches (withBulk_keyed keyed ⟨0, []⟩) s.bulk.deferred).mono
        fun _ s' keyed' => ⟨s'.mirror, keyed', rfl⟩
  · rename_i depth _
    exact ⟨fun sound _ heard =>
      ⟨SymbolBulk.sound_inside sound depth, withBulk_keyed keyed _, heard⟩,
      ⟨s.mirror, withBulk_keyed keyed _, rfl⟩⟩

end Bulk

end Space

end BinaryAtlas
