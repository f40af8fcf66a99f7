import BinaryAtlas.Proofs.SegmentMap.Resetting
import BinaryAtlas.Proofs.Space.Reaching

/-!
In every space that can be reached, what is kept in tables is filed under its own key and on its own
side, and the log of the storage is canonical.
-/

set_option autoImplicit false

namespace BinaryAtlas

namespace SegmentMap

/-- Segments and sections are filed under their own keys and on their own sides, and no segment has
a number that is still to be issued. -/
structure Filed (m : SegmentMap) : Prop where
  segments : ∀ {auto start s}, (m.layer auto).get? start = some s → s.start = start ∧ s.auto = auto
  autoSections : ∀ {name s}, m.autoSections.get? name = some s → s.name = name ∧ s.auto = true
  userSections : ∀ {name s}, m.userSections.get? name = some s → s.name = name ∧ s.auto = false
  numbered : m.Numbered

variable {m after : SegmentMap}

theorem empty_filed : empty.Filed where
  segments {auto start s} held := by cases auto <;> simp [empty, layer] at held
  autoSections held := by simp [empty] at held
  userSections held := by simp [empty] at held
  numbered _ member := nomatch member

theorem put_filed (filed : m.Filed) {s : Segment} (issued : s.id ≤ m.lastId) :
    (m.put s).Filed where
  segments held := by
    rcases get?_put held with ⟨rfl, rfl, rfl, rfl⟩ | held
    · exact ⟨rfl, rfl⟩
    · exact filed.segments held
  autoSections held := by
    refine filed.autoSections ?_
    unfold put withLayer at held
    split at held <;> exact held
  userSections held := by
    refine filed.userSections ?_
    unfold put withLayer at held
    split at held <;> exact held
  numbered := put_numbered filed.numbered (Nat.le_refl _) issued

theorem renumbered_filed (filed : m.Filed) {id : Nat} (later : m.lastId ≤ id) :
    { m with lastId := id }.Filed :=
  ⟨filed.segments, filed.autoSections, filed.userSections,
    fun s member => Nat.le_trans (filed.numbered s member) later⟩

theorem add_filed (filed : m.Filed) {s : Segment} {id : Nat} (added : m.add s = .ok (after, id)) :
    after.Filed := by
  simp only [add] at added
  split_ifs at added
  cases added
  exact put_filed (renumbered_filed filed (Nat.le_add_right _ 1)) (Nat.le_refl _)

theorem restore_filed (filed : m.Filed) {s : Segment} (restored : m.restore s = .ok after) :
    after.Filed := by
  simp only [restore] at restored
  split_ifs at restored
  cases restored
  exact put_filed (renumbered_filed filed (Nat.le_max_left _ _)) (Nat.le_max_right _ _)

theorem remove_filed (filed : m.Filed) (start : Word) (auto : Bool) :
    (m.remove start auto).1.Filed where
  segments held := filed.segments (get?_remove held)
  autoSections held := by
    refine filed.autoSections ?_
    unfold remove withLayer at held
    split at held <;> exact held
  userSections held := by
    refine filed.userSections ?_
    unfold remove withLayer at held
    split at held <;> exact held
  numbered := remove_numbered filed.numbered start auto

theorem addSection_filed (filed : m.Filed) (s : Section) : (m.addSection s).1.Filed := by
  unfold addSection
  split
  · rename_i auto
    refine ⟨filed.segments, fun held => ?_, filed.userSections, filed.numbered⟩
    rcases Table.get?_insert_eq_some_iff.1 held with ⟨rfl, rfl⟩ | ⟨-, held⟩
    · exact ⟨rfl, auto⟩
    · exact filed.autoSections held
  · rename_i user
    refine ⟨filed.segments, filed.autoSections, fun held => ?_, filed.numbered⟩
    rcases Table.get?_insert_eq_some_iff.1 held with ⟨rfl, rfl⟩ | ⟨-, held⟩
    · exact ⟨rfl, by simpa using user⟩
    · exact filed.userSections held

theorem removeSection_filed (filed : m.Filed) (name : String) (auto : Bool) :
    (m.removeSection name auto).1.Filed := by
  unfold removeSection
  split
  · exact ⟨filed.segments, fun held => filed.autoSections (Table.get?_erase_eq_some_iff.1 held).2,
      filed.userSections, filed.numbered⟩
  · exact ⟨filed.segments, filed.autoSections,
      fun held => filed.userSections (Table.get?_erase_eq_some_iff.1 held).2, filed.numbered⟩

theorem addRelocation_filed (filed : m.Filed) (range : AddressRange) :
    (m.addRelocation range).1.Filed := by
  unfold addRelocation
  cases found : m.at? range.start with
  | none => exact filed
  | some s =>
    simp only
    split
    · exact filed
    · exact put_filed filed (filed.numbered s (mem_of_at? found).1)

end SegmentMap

namespace FunctionTable

/-- Functions are filed under their starts. -/
def Filed (t : FunctionTable) : Prop := ∀ a f, t.functions.get? a = some f → f.start = a

variable {t : FunctionTable}

theorem insert_filed (filed : t.Filed) {a : Word} {f : Function} (own : f.start = a) :
    Filed { t with functions := t.functions.insert a f } := by
  intro key g held
  rcases Table.get?_insert_eq_some_iff.1 held with ⟨rfl, rfl⟩ | ⟨-, held⟩
  · exact own
  · exact filed key g held

theorem add_filed (filed : t.Filed) (start : Word) (auto : Bool) : (t.add start auto).1.Filed := by
  unfold add
  split
  · exact filed
  · exact insert_filed filed rfl

theorem addAll_filed (filed : t.Filed) (starts : List Word) (auto : Bool) :
    (t.addAll starts auto).Filed := by
  unfold addAll
  induction starts generalizing t with
  | nil => exact filed
  | cons start rest ih => exact ih (add_filed filed start auto)

theorem enqueueAll_functions (t : FunctionTable) (starts : List Word) :
    (t.enqueueAll starts).functions = t.functions := by
  unfold enqueueAll
  induction starts generalizing t with
  | nil => rfl
  | cons start rest ih => exact ih (t.enqueue start)

/-- Where the functions begin that a user made or claimed. -/
def userStarts (t : FunctionTable) : Table Word Word :=
  (t.functions.filter fun _ f => !f.auto).mapValues fun _ f => f.start

theorem get?_userStarts (t : FunctionTable) (a : Word) :
    t.userStarts.get? a = ((t.functions.get? a).filter (!·.auto)).map (·.start) := by
  rw [userStarts, Table.get?_mapValues, Table.get?_filter]

theorem values_userStarts (t : FunctionTable) :
    t.userStarts.values = (t.all.filter (!·.auto)).map (·.start) := by
  simp only [userStarts, Table.values, Table.mapValues, Table.filter, all, List.map_map,
    List.filter_map]
  rfl

theorem get?_addAll (t : FunctionTable) (starts : List Word) (auto : Bool) (a : Word) :
    (t.addAll starts auto).functions.get? a =
      (t.functions.get? a).or (if a ∈ starts then some (.unexplored a auto) else none) := by
  unfold addAll
  induction starts generalizing t with
  | nil => simp
  | cons start rest ih =>
    have added : (t.add start auto).1.functions.get? a =
        (t.functions.get? a).or (if a = start then some (.unexplored start auto) else none) := by
      unfold add Table.contains
      cases held : t.functions.get? start with
      | some f =>
        by_cases here : a = start
        · simp [here, held]
        · simp [here]
      | none =>
        show (t.functions.insert start _).get? a = _
        rw [Table.get?_insert]
        by_cases here : a = start
        · simp [here, held]
        · simp [here]
    rw [List.foldl_cons, ih, added]
    by_cases here : a = start
    · cases t.functions.get? a <;> simp [here]
    · simp [here]

end FunctionTable

/-- Nothing is kept back outside a bulk block, and nothing but symbol events within one. -/
structure SymbolBulk.Sound (b : SymbolBulk) : Prop where
  closed : b.depth = 0 → b.deferred = []
  symbols : ∀ e ∈ b.deferred, e.isAboutSymbol = true

namespace SymbolBulk

variable {b : SymbolBulk}

theorem closed_sound : Sound ⟨0, []⟩ := ⟨fun _ => rfl, fun _ member => nomatch member⟩

theorem sound_inside (sound : b.Sound) (depth : Nat) : Sound { b with depth := depth + 1 } :=
  ⟨fun outside => absurd outside (Nat.succ_ne_zero depth), sound.symbols⟩

theorem defer_sound (sound : b.Sound) (inside : 0 < b.depth) {event : ChangeEvent}
    (about : event.isAboutSymbol = true) :
    Sound { b with deferred := b.deferred ++ [event] } := by
  refine ⟨fun outside => absurd outside (Nat.ne_of_gt inside), fun e member => ?_⟩
  rcases List.mem_append.1 member with older | new
  · exact sound.symbols e older
  · exact List.mem_singleton.1 new ▸ about

end SymbolBulk

namespace Space

open Op

/-- Tables are filed by their own keys, the log is canonical, and only what must be is kept back. -/
structure Filed (s : Space) : Prop where
  map : s.map.Filed
  functions : s.functions.Filed
  log : s.storage.log.Canonical
  bulk : s.bulk.Sound

abbrev KeepsFiled {α : Type} (op : Op α) : Prop := op.Preserves Filed Fits

variable {α : Type}

theorem update_filed {f : Space → Space × α} (map : ∀ s, s.map.Filed → (f s).1.map.Filed)
    (functions : ∀ s, s.functions.Filed → (f s).1.functions.Filed)
    (others : ∀ s, (f s).1.storage = s.storage ∧ (f s).1.bulk = s.bulk) :
    KeepsFiled (update f) :=
  preserves_update fun s here room =>
    ⟨⟨map s here.map, functions s here.functions, by rw [(others s).1]; exact here.log,
      by rw [(others s).2]; exact here.bulk⟩, by rw [Fits, (others s).1]; exact room⟩

theorem modify_filed {f : Space → Space} (map : ∀ s, s.map.Filed → (f s).map.Filed)
    (functions : ∀ s, s.functions.Filed → (f s).functions.Filed)
    (others : ∀ s, (f s).storage = s.storage ∧ (f s).bulk = s.bulk) : KeepsFiled (modify f) :=
  update_filed (f := fun s => (f s, ())) map functions others

/-- A change of neither segments nor functions nor storage nor what is kept back, with an answer. -/
theorem update_elsewhere_filed {f : Space → Space × α}
    (same : ∀ s, (f s).1.map = s.map ∧ (f s).1.functions = s.functions ∧
      (f s).1.storage = s.storage ∧ (f s).1.bulk = s.bulk) : KeepsFiled (update f) :=
  update_filed (fun s filed => by rwa [(same s).1]) (fun s filed => by rwa [(same s).2.1])
    fun s => (same s).2.2

theorem modify_elsewhere_filed {f : Space → Space}
    (same : ∀ s, (f s).map = s.map ∧ (f s).functions = s.functions ∧
      (f s).storage = s.storage ∧ (f s).bulk = s.bulk) : KeepsFiled (modify f) :=
  update_elsewhere_filed (f := fun s => (f s, ())) same

theorem editMetadata_filed (f : Metadata → Metadata) : KeepsFiled (editMetadata f) :=
  modify_elsewhere_filed fun _ => ⟨rfl, rfl, rfl, rfl⟩

theorem editScheduler_filed (f : Scheduler → Scheduler) : KeepsFiled (editScheduler f) :=
  modify_elsewhere_filed fun _ => ⟨rfl, rfl, rfl, rfl⟩

theorem editFunctions_filed {f : FunctionTable → FunctionTable}
    (kept : ∀ t, t.Filed → (f t).Filed) : KeepsFiled (editFunctions f) :=
  modify_filed (fun _ filed => filed) (fun s filed => kept s.functions filed)
    fun _ => ⟨rfl, rfl⟩

theorem editUndoLog_filed (f : UndoLog → UndoLog) : KeepsFiled (editUndoLog f) :=
  modify_elsewhere_filed fun _ => ⟨rfl, rfl, rfl, rfl⟩

theorem record_filed (action : UndoAction) : KeepsFiled (record action) :=
  editUndoLog_filed (·.record action)

theorem recordIf_filed (condition : Bool) (action : UndoAction) :
    KeepsFiled (recordIf condition action) :=
  preserves_ite (record_filed action) (preserves_pure ())

theorem tell_filed (event : ChangeEvent) : KeepsFiled (tell event) := by
  refine preserves_read_bind fun s here room => ?_
  split
  · rename_i kept
    rw [Bool.and_eq_true, decide_eq_true_eq] at kept
    exact ⟨⟨here.map, here.functions, here.log, SymbolBulk.defer_sound here.bulk kept.2 kept.1⟩,
      room⟩
  · exact preserves_notify _ s here room

theorem beginBulk_filed : KeepsFiled beginBulk := fun s here room =>
  ⟨⟨here.map, here.functions, here.log, SymbolBulk.sound_inside here.bulk s.bulk.depth⟩, room⟩

theorem endBulk_filed : KeepsFiled endBulk := by
  refine preserves_read_bind fun s here room => ?_
  cases depth : s.bulk.depth with
  | zero => exact ⟨here, room⟩
  | succ outer =>
    cases outer with
    | zero =>
      exact preserves_forEach (fun _ => preserves_notify _) s.bulk.deferred
        { s with bulk := ⟨0, []⟩ }
        ⟨here.map, here.functions, here.log, SymbolBulk.closed_sound⟩ room
    | succ outer =>
      exact ⟨⟨here.map, here.functions, here.log, SymbolBulk.sound_inside here.bulk outer⟩, room⟩

theorem tellQuietly_filed (events : List ChangeEvent) : KeepsFiled (tellQuietly events) :=
  preserves_forEach tell_filed events

/-- To request a run of analysis, where events ask for one. -/
theorem wake_filed (events : List ChangeEvent) : KeepsFiled (do
    if events.any (·.wakesAnalysis) && (← Op.read (·.config.analysis.autoSchedule)) then
      editScheduler (·.schedule)) :=
  preserves_bind (preserves_read _) fun _ =>
    preserves_ite (editScheduler_filed _) (preserves_pure ())

theorem emit_filed (events : List ChangeEvent) : KeepsFiled (emit events) :=
  preserves_bind (tellQuietly_filed events) fun _ => wake_filed events

theorem freshId_filed : KeepsFiled freshId :=
  update_elsewhere_filed fun _ => ⟨rfl, rfl, rfl, rfl⟩

end Space

end BinaryAtlas
