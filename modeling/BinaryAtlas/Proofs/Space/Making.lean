import BinaryAtlas.Proofs.SegmentMap.Accounts
import BinaryAtlas.Proofs.Space.Layout
import BinaryAtlas.ViewType

/-!
What a space is like when it has just been made.
-/

set_option autoImplicit false

namespace BinaryAtlas

theorem SpacePlan.build_eq_ok {plan : SpacePlan} {s : Space} (made : plan.build = .ok s) :
    ∃ storage, (plan.storage <|> plan.parent.map (·.storage)) = some storage ∧
      s = { backend := plan.backend.getD (.mapped "")
            storage := storage
            map := .empty
            metadata := .empty
            functions := .empty
            undoLog := .empty
            scheduler := .initial
            architecture := plan.architecture <|> plan.parent.bind (·.architecture)
            config := (plan.config <|> plan.parent.map (·.config)).getD {}
            parentView := plan.parent.map (·.viewType)
            bulk := ⟨0, []⟩
            idsMade := 0 } := by
  simp only [build, bind, Except.bind] at made
  split at made
  · cases made
  · split at made
    · cases made
    · rename_i storage given
      cases made
      exact ⟨storage, given, rfl⟩

/-- A space that goes to the storage of another one, with its settings and its instruction set. -/
structure Space.Views (data view : Space) : Prop where
  storage : view.storage = data.storage
  architecture : view.architecture = data.architecture
  config : view.config = data.config
  functions : view.functions = .empty
  metadata : view.metadata = .empty
  undoLog : view.undoLog = .empty
  bulk : view.bulk = ⟨0, []⟩

namespace Space

variable {data view : Space}

theorem derive_eq_ok {backend : Backend} (made : data.derive backend = .ok view) :
    data.Views view ∧ view.map = .empty ∧ view.backend = backend := by
  obtain ⟨storage, given, rfl⟩ := SpacePlan.build_eq_ok made
  cases given
  exact ⟨⟨rfl, rfl, rfl, rfl, rfl, rfl, rfl⟩, rfl, rfl⟩

end Space

namespace ViewType

variable {data view : Space}

theorem create_eq_ok {type : ViewType} (made : type.create data = .ok view) :
    data.Views view ∧ view.backend = (match type with | raw => .raw | mapped _ => .mapped "") ∧
      (view.map = .empty ∨
        ∃ segment id, segment.WellFormed ∧ SegmentMap.empty.add segment = .ok (view.map, id)) := by
  cases type with
  | raw =>
    obtain ⟨views, map, backend⟩ := Space.derive_eq_ok made
    exact ⟨views, backend, .inl map⟩
  | mapped base =>
    simp only [create, bind, Except.bind] at made
    cases derived : data.derive (.mapped "") with
    | error e => rw [derived] at made; cases made
    | ok fresh =>
      obtain ⟨views, map, backend⟩ := Space.derive_eq_ok derived
      rw [derived] at made
      simp only [Space.addSegmentOfLayout] at made
      cases laid : Segment.ofLayout base fresh.storage.length 0 fresh.storage.length mappedFlags
          true with
      | error e => rw [laid] at made; cases made
      | ok segment =>
        obtain ⟨wellFormed, auto, bare⟩ := Segment.ofLayout_eq_ok laid
        simp only [laid] at made
        cases added : fresh.map.add segment with
        | error e => rw [Space.addSegment_refused added] at made; cases made
        | ok outcome =>
          obtain ⟨after, id⟩ := outcome
          rw [map] at added
          obtain ⟨now, held⟩ :=
            SegmentMap.add_accounted SegmentMap.empty_accounted wellFormed bare added
          rw [← map] at added
          obtain ⟨answer, same⟩ := Space.addSegment_settles added (now.byId?_eq held)
          have kept := Space.addSegment_keeps_bulk segment fresh
          rcases told : ((Space.addSegment segment) fresh).collect with ⟨notices, result, last⟩
          rw [told] at made answer same kept
          cases answer
          cases made
          have placed : view.map = after := congrArg Space.map same
          rw [map, ← placed] at added
          refine ⟨⟨?_, ?_, ?_, ?_, ?_, ?_, kept.trans views.bulk⟩, ?_,
            .inr ⟨segment, id, wellFormed, added⟩⟩
          · exact (congrArg Space.storage same).trans views.storage
          · exact (congrArg Space.architecture same).trans views.architecture
          · exact (congrArg Space.config same).trans views.config
          · exact (congrArg Space.functions same).trans views.functions
          · exact (congrArg Space.metadata same).trans views.metadata
          · refine (congrArg Space.undoLog same).trans (Eq.trans ?_ views.undoLog)
            show (if !segment.auto then _ else fresh.undoLog) = _
            rw [auto]
            rfl
          · exact (congrArg Space.backend same).trans backend

end ViewType

end BinaryAtlas
