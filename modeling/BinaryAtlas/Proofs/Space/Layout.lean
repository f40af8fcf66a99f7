import BinaryAtlas.Proofs.SegmentMap.Resetting
import BinaryAtlas.Proofs.Space.Settling
import BinaryAtlas.Space.Layout

/-!
What the operations on segments and sections answer, and where they lead.
-/

set_option autoImplicit false

namespace BinaryAtlas

namespace Space

theorem addSegment_refused {s : Space} {segment : Segment} {e : AtlasError}
    (refused : s.map.add segment = .error e) : addSegment segment s = .done (.error e) s := by
  simp only [addSegment, bind, Op.read, Run.bind, refused]
  rfl

theorem addSegment_settles {s : Space} {segment stored : Segment} {map : SegmentMap} {id : Nat}
    (added : s.map.add segment = .ok (map, id)) (shown : map.byId? id = some stored) :
    (addSegment segment).Settles s (.ok id)
      (noted (!stored.auto) (.segment stored.start none (some stored)) { s with map := map }) := by
  simp [addSegment, added, shown, editMap]

theorem addSegment_keeps_bulk (segment : Segment) : Op.Keeps (·.bulk) (addSegment segment) := by
  refine Op.keeps_bind (Op.keeps_read _) fun map => ?_
  cases map.add segment with
  | error e => exact Op.keeps_pure _
  | ok outcome =>
    refine Op.keeps_bind (Op.keeps_modify fun _ => rfl) fun _ => ?_
    dsimp only
    cases outcome.1.byId? outcome.2 with
    | none => exact Op.keeps_pure _
    | some stored =>
      refine Op.keeps_bind ?_ fun _ =>
        Op.keeps_bind (emit_keeps_bulk rfl) fun _ => Op.keeps_pure _
      cases stored.auto
      · exact Op.keeps_modify fun _ => rfl
      · exact Op.keeps_pure ()

theorem removeSegment_settles (s : Space) (start : Word) (auto : Bool) :
    (removeSegment start auto).Settles s ((s.map.layer auto).contains start)
      (match (s.map.layer auto).get? start with
        | none => { s with map := (s.map.remove start auto).1 }
        | some segment => noted (!auto) (.segment start (some segment) none)
            { s with map := (s.map.remove start auto).1 }) := by
  cases held : (s.map.layer auto).get? start <;>
    simp [removeSegment, SegmentMap.remove, held, Table.contains]

theorem restoreSegment_settles (s : Space) (start : Word) (state : Option Segment) :
    (restoreSegment start state).Settles s () { s with map := s.map.reset start state } := by
  cases state with
  | none => simp [restoreSegment, SegmentMap.reset]
  | some segment =>
    cases restored : (s.map.remove start false).1.restore segment <;>
      simp [restoreSegment, SegmentMap.reset, restored]

theorem addSection_settles (s : Space) (section_ : Section) (auto : Bool) :
    let given : Section := { section_ with auto := auto }
    (addSection section_ auto).Settles s ()
      (noted (!auto) (.section section_.name (s.map.addSection given).2 (some given))
        { s with map := (s.map.addSection given).1 }) := by
  simp [addSection]

theorem removeSection_settles (s : Space) (name : String) (auto : Bool) :
    (removeSection name auto).Settles s (s.map.removeSection name auto).2.isSome
      (match (s.map.removeSection name auto).2 with
        | none => { s with map := (s.map.removeSection name auto).1 }
        | some section_ => noted (!auto) (.section name (some section_) none)
            { s with map := (s.map.removeSection name auto).1 }) := by
  cases removed : (s.map.removeSection name auto).2 <;> simp [removeSection, removed]

theorem restoreSection_settles (s : Space) (name : String) (state : Option Section) :
    (restoreSection name state).Settles s ()
      { s with map := s.map.resetSection name state } := by
  cases state <;> simp [restoreSection, SegmentMap.resetSection]

end Space

end BinaryAtlas
