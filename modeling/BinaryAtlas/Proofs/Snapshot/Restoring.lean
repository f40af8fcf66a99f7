import BinaryAtlas.Proofs.Space.FiledEdits
import BinaryAtlas.Proofs.Space.Making
import BinaryAtlas.Proofs.TableSearch

/-!
The space that a snapshot is made into, part by part: its bytes and its view, its segments and
sections, and its functions.
-/

set_option autoImplicit false

namespace BinaryAtlas

namespace ViewTypeRegistry

variable {registry : ViewTypeRegistry} {name : String} {data view : Space}

theorem create_eq_ok (made : registry.create name data = .ok view) :
    ∃ type : ViewType, type.name = name ∧ type.create data = .ok view := by
  unfold create at made
  cases found : registry.get? name with
  | none => rw [found] at made; cases made
  | some type =>
    simp only [found] at made
    split at made
    · exact ⟨type, by simpa using List.find?_some found, made⟩
    · cases made

end ViewTypeRegistry

namespace SegmentMap

/-- Restoring segments files each on its own side. -/
theorem restored_layers {items : List Segment} {m after : SegmentMap}
    (restored : items.foldlM (·.restore ·) m = .ok after) :
    (∀ auto, after.layer auto = (items.filter (·.auto == auto)).foldl
      (fun layer s => layer.insert s.start s) (m.layer auto)) ∧
    after.autoSections = m.autoSections ∧ after.userSections = m.userSections := by
  induction items generalizing m with
  | nil =>
    cases restored
    exact ⟨fun _ => rfl, rfl, rfl⟩
  | cons s rest ih =>
    rw [List.foldlM_cons] at restored
    cases step : m.restore s with
    | error e => rw [step] at restored; cases restored
    | ok next =>
      rw [step] at restored
      obtain ⟨layers, autoSections, userSections⟩ := ih restored
      have put_eq : next = { m with lastId := max m.lastId s.id }.put s := by
        simp only [restore] at step
        split_ifs at step
        cases step
        rfl
      refine ⟨fun auto => ?_, ?_, ?_⟩
      · rw [layers auto, put_eq, layer_put]
        by_cases side : auto = s.auto
        · subst side
          simp
          rfl
        · have other : (s.auto == auto) = false := by
            simpa using fun same => side same.symm
          simp [side, other]
          rfl
      · rw [autoSections, put_eq]
        unfold put withLayer
        split <;> rfl
      · rw [userSections, put_eq]
        unfold put withLayer
        split <;> rfl

theorem restored_sections (items : List Section) (m : SegmentMap) :
    Snapshot.restoreSections m items = { m with
      autoSections := (items.filter (·.auto)).foldl (fun t s => t.insert s.name s) m.autoSections
      userSections := (items.filter (!·.auto)).foldl (fun t s => t.insert s.name s)
        m.userSections } := by
  unfold Snapshot.restoreSections
  induction items generalizing m with
  | nil => rfl
  | cons s rest ih =>
    rw [List.foldl_cons, ih]
    cases side : s.auto <;> simp [addSection, side]

variable {m : SegmentMap}

theorem filter_allSegments (filed : m.Filed) (auto : Bool) :
    m.allSegments.filter (·.auto == auto) = (m.layer auto).values := by
  have sided (side : Bool) : ∀ s ∈ (m.layer side).values, s.auto = side := by
    intro s member
    obtain ⟨start, held⟩ := (Table.mem_values_iff _ s).1 member
    exact (filed.segments held).2
  have kept (side : Bool) :
      (m.layer side).values.filter (·.auto == auto) = if side = auto then (m.layer side).values
        else [] := by
    split
    · rename_i same
      exact List.filter_eq_self.2 fun s member => by simp [sided side s member, same]
    · rename_i other
      exact List.filter_eq_nil_iff.2 fun s member => by simp [sided side s member, other]
  show ((m.layer false).values ++ (m.layer true).values).filter (·.auto == auto) = _
  rw [List.filter_append, kept, kept]
  cases auto <;> simp

theorem filter_allSections (filed : m.Filed) :
    m.allSections.filter (·.auto) = m.autoSections.values ∧
      m.allSections.filter (!·.auto) = m.userSections.values := by
  have auto : ∀ s ∈ m.autoSections.values, s.auto = true := by
    intro s member
    obtain ⟨name, held⟩ := (Table.mem_values_iff _ s).1 member
    exact (filed.autoSections held).2
  have user : ∀ s ∈ m.userSections.values, s.auto = false := by
    intro s member
    obtain ⟨name, held⟩ := (Table.mem_values_iff _ s).1 member
    exact (filed.userSections held).2
  unfold allSections
  simp only [List.filter_append]
  constructor
  · have none : m.userSections.values.filter (·.auto) = [] :=
      List.filter_eq_nil_iff.2 fun s member => by simp [user s member]
    rw [none, List.filter_eq_self.2 auto, List.nil_append]
  · have none : m.autoSections.values.filter (!·.auto) = [] :=
      List.filter_eq_nil_iff.2 fun s member => by simp [auto s member]
    rw [none, List.filter_eq_self.2 fun s member => by simp [user s member], List.append_nil]

/-- All that a map holds comes back; only the last number may have been that of a segment that is
there no more. -/
theorem restored_map (filed : m.Filed) {after : SegmentMap}
    (restored : Snapshot.restoreSegments m.segments = .ok after) :
    Snapshot.restoreSections after m.allSections = { m with lastId := after.lastId } := by
  obtain ⟨layers, autoSections, userSections⟩ := restored_layers restored
  have layer_eq (auto : Bool) : after.layer auto = m.layer auto := by
    have empty_layer : empty.layer auto = .empty := by cases auto <;> rfl
    have same : (m.segments.filter (·.auto == auto)).Perm (m.layer auto).values := by
      rw [← filter_allSegments filed auto]
      exact (List.mergeSort_perm m.allSegments inOrder).filter _
    rw [layers, empty_layer]
    exact Table.refiled (fun start s held => (filed.segments held).1) same
  have auto_eq : after.autoSegments = m.autoSegments := layer_eq true
  have user_eq : after.userSegments = m.userSegments := layer_eq false
  obtain ⟨auto_sections, user_sections⟩ := filter_allSections filed
  rw [restored_sections, auto_sections, user_sections, autoSections, userSections, auto_eq, user_eq]
  have autos : m.autoSections.values.foldl (fun t s => t.insert s.name s) empty.autoSections =
      m.autoSections := Table.refiled (fun name s held => (filed.autoSections held).1) (.refl _)
  have users : m.userSections.values.foldl (fun t s => t.insert s.name s) empty.userSections =
      m.userSections := Table.refiled (fun name s held => (filed.userSections held).1) (.refl _)
  rw [autos, users]

theorem restoreSegments_filed (filed : m.Filed) {items : List Segment} {after : SegmentMap}
    (restored : items.foldlM (·.restore ·) m = .ok after) : after.Filed := by
  induction items generalizing m with
  | nil =>
    cases restored
    exact filed
  | cons s rest ih =>
    rw [List.foldlM_cons] at restored
    cases step : m.restore s with
    | error e => rw [step] at restored; cases restored
    | ok next =>
      rw [step] at restored
      exact ih (restore_filed filed step) restored

theorem restoreSections_filed (filed : m.Filed) (items : List Section) :
    (Snapshot.restoreSections m items).Filed := by
  unfold Snapshot.restoreSections
  induction items generalizing m with
  | nil => exact filed
  | cons s rest ih => exact ih (addSection_filed filed s)

end SegmentMap

namespace Snapshot

variable {snapshot : Snapshot} {registry : ViewTypeRegistry} {view s : Space}

theorem restoreFunctions_filed (snapshot : Snapshot) : snapshot.restoreFunctions.Filed := by
  have none : FunctionTable.empty.Filed := fun a f held => by simp [FunctionTable.empty] at held
  exact FunctionTable.addAll_filed (FunctionTable.addAll_filed none _ _) _ _

/-- The functions of a user come back, also those at entry points. -/
theorem restored_userStarts {t : FunctionTable} (filed : t.Filed)
    (starts : snapshot.userFunctions = t.userStarts.values) :
    snapshot.restoreFunctions.userStarts = t.userStarts := by
  have own {a b : Word} (held : t.userStarts.get? a = some b) : b = a := by
    rw [FunctionTable.get?_userStarts] at held
    obtain ⟨f, found, rfl⟩ := Option.map_eq_some_iff.1 held
    exact filed a f (Option.filter_eq_some_iff.1 found).1
  have listed (a : Word) : a ∈ snapshot.userFunctions ↔ t.userStarts.get? a = some a := by
    rw [starts, Table.mem_values_iff]
    constructor
    · rintro ⟨key, held⟩
      rwa [← own held] at held
    · exact fun held => ⟨a, held⟩
  apply Table.ext_get?
  intro a
  rw [FunctionTable.get?_userStarts]
  show Option.map _ (Option.filter _ (Table.get? (FunctionTable.functions _) a)) = _
  have found : (snapshot.restoreFunctions.functions).get? a =
      (if a ∈ snapshot.userFunctions then some (Function.unexplored a false) else none).or
        (if a ∈ snapshot.entryPoints then some (.unexplored a true) else none) := by
    show ((FunctionTable.empty.addAll _ false).addAll _ true).functions.get? a = _
    rw [FunctionTable.get?_addAll, FunctionTable.get?_addAll]
    rfl
  rw [found]
  by_cases user : a ∈ snapshot.userFunctions
  · rw [(listed a).1 user]
    simp [user, Function.unexplored]
  · have absent : t.userStarts.get? a = none := by
      rw [Option.eq_none_iff_forall_ne_some]
      intro b held
      rw [own held] at held
      exact user ((listed a).2 held)
    rw [absent]
    by_cases entry : a ∈ snapshot.entryPoints <;> simp [user, entry, Function.unexplored]

/-- The view that a snapshot is made into, before its tables are put in. -/
structure Opens (snapshot : Snapshot) (view : Space) : Prop where
  storage : view.storage = ⟨.memory, snapshot.contents, .ofRuns snapshot.modifications⟩
  architecture : view.architecture =
    snapshot.architecture.bind ArchitectureRegistry.standard.get?
  config : view.config = snapshot.config
  undoLog : view.undoLog = .empty
  bulk : view.bulk = ⟨0, []⟩
  raw : snapshot.viewType = "Raw" → view.backend = .raw
  mapped : snapshot.viewType ≠ "Raw" → ∃ label, view.backend = .mapped label
  viewType : snapshot.viewType ≠ "" → view.viewType = snapshot.viewType

theorem restoreView_eq_ok (made : snapshot.restoreView registry = .ok view) :
    snapshot.Opens view := by
  simp only [restoreView, bind, Except.bind] at made
  split at made
  · cases made
  · rename_i data built
    obtain ⟨storage, given, data_eq⟩ := SpacePlan.build_eq_ok built
    cases given
    have type : data.viewType = "Raw" := by rw [data_eq]; rfl
    have opened {view : Space} (views : data.Views view) :
        view.storage = ⟨.memory, snapshot.contents, .ofRuns snapshot.modifications⟩ ∧
        view.architecture = snapshot.architecture.bind ArchitectureRegistry.standard.get? ∧
        view.config = snapshot.config ∧ view.undoLog = .empty ∧ view.bulk = ⟨0, []⟩ := by
      rw [views.storage, views.architecture, views.config, views.undoLog, views.bulk, data_eq]
      exact ⟨rfl, by simp, rfl, rfl, rfl⟩
    rw [type] at made
    split at made
    · rename_i raw
      cases made
      rw [data_eq]
      exact ⟨rfl, by simp, rfl, rfl, rfl, fun _ => rfl, fun other => absurd raw other,
        fun _ => raw.symm⟩
    · rename_i other
      split at made
      · obtain ⟨kind, named, created⟩ := ViewTypeRegistry.create_eq_ok made
        obtain ⟨views, backend, -⟩ := ViewType.create_eq_ok created
        obtain ⟨storage, architecture, config, undoLog, bulk⟩ := opened views
        cases kind with
        | raw => exact absurd named.symm other
        | mapped base =>
          refine ⟨storage, architecture, config, undoLog, bulk, fun raw => absurd raw other,
            fun _ => ⟨_, backend⟩, fun _ => ?_⟩
          rw [← named, Space.viewType, backend]
          rfl
      · obtain ⟨views, -, backend⟩ := Space.derive_eq_ok made
        obtain ⟨storage, architecture, config, undoLog, bulk⟩ := opened views
        refine ⟨storage, architecture, config, undoLog, bulk, fun raw => absurd raw other,
          fun _ => ⟨_, backend⟩, fun some => ?_⟩
        rw [Space.viewType, backend, Backend.name, if_neg some]

theorem restore_eq_ok (made : snapshot.restore registry = .ok s) :
    ∃ view map, snapshot.Opens view ∧ restoreSegments snapshot.segments = .ok map ∧
      ∃ scheduler, s = { view with
        map := restoreSections map snapshot.sections
        metadata := snapshot.metadata
        functions := snapshot.restoreFunctions
        scheduler := scheduler } := by
  simp only [restore, bind, Except.bind] at made
  split at made
  · cases made
  · rename_i view opened
    split at made
    · cases made
    · rename_i map restored
      cases made
      exact ⟨view, map, restoreView_eq_ok opened, restored, _, rfl⟩

theorem restore_filed (made : snapshot.restore registry = .ok s) : s.Filed := by
  obtain ⟨view, map, opens, restored, scheduler, rfl⟩ := restore_eq_ok made
  refine ⟨?_, restoreFunctions_filed snapshot, ?_, ?_⟩
  · exact SegmentMap.restoreSections_filed
      (SegmentMap.restoreSegments_filed SegmentMap.empty_filed restored) _
  · show view.storage.log.Canonical
    rw [opens.storage]
    exact PatchLog.ofRuns_canonical _
  · show view.bulk.Sound
    rw [opens.bulk]
    exact SymbolBulk.closed_sound

end Snapshot

namespace Space

theorem reachable_filed {s : Space} (reached : Reachable s) : s.Filed ∧ s.Fits := by
  induction reached with
  | built logged parents made fits ih =>
    obtain ⟨storage, given, rfl⟩ := SpacePlan.build_eq_ok made
    refine ⟨⟨SegmentMap.empty_filed, fun a f held => by simp [FunctionTable.empty] at held, ?_,
      SymbolBulk.closed_sound⟩, fits⟩
    rename_i plan
    cases own : plan.storage with
    | some kept =>
      rw [own] at given
      cases given
      obtain ⟨edits, fit, log⟩ := logged storage own
      show storage.log.Canonical
      rw [log]
      exact (PatchEdit.foldl_apply_refines PatchLog.canonical_empty edits fit).1
    | none =>
      rw [own] at given
      cases above : plan.parent with
      | none => rw [above] at given; cases given
      | some parent =>
        rw [above] at given
        cases given
        exact (ih parent above).1.log
  | created reached made fits ih =>
    obtain ⟨type, -, created⟩ := ViewTypeRegistry.create_eq_ok made
    obtain ⟨views, -, map⟩ := ViewType.create_eq_ok created
    refine ⟨⟨?_, ?_, ?_, ?_⟩, fits⟩
    · rcases map with map | ⟨segment, id, -, added⟩
      · rw [map]
        exact SegmentMap.empty_filed
      · exact SegmentMap.add_filed SegmentMap.empty_filed added
    · rw [views.functions]
      exact fun a f held => by simp [FunctionTable.empty] at held
    · rw [views.storage]
      exact ih.1.log
    · rw [views.bulk]
      exact SymbolBulk.closed_sound
  | restored made fits => exact ⟨Snapshot.restore_filed made, fits⟩
  | edited reached edit shows ih =>
    exact Run.shows_good (fun _ fits => fits) edit_filed shows (edit_filed edit _ ih.1 ih.2)

end Space

end BinaryAtlas
