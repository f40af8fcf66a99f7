import BinaryAtlas.Proofs.Undo.Histories

/-!
Everything a user does to a space is noted so that it can be taken back, entry by entry and all the
way to the first tables.
-/

set_option autoImplicit false

namespace BinaryAtlas

/-- What a user does to a space. -/
inductive UserEdit where
  | write (a : Word) (data : List UInt8)
  | insert (a : Word) (data : List UInt8)
  | remove (a length : Word)
  | addSegment (start length dataOffset dataLength : Word) (flags : SegmentFlags)
  | removeSegment (start : Word)
  | addSection (section_ : Section)
  | removeSection (name : String)
  | defineVariable (a : Word) (type : DataType)
  | undefineVariable (a : Word)
  | defineSymbol (symbol : Symbol)
  | undefineSymbol (key : SymbolKey)
  | defineType (name : String) (type : DataType)
  | undefineType (name : String)
  | renameType (old new : String)
  | addTag (a : Word) (tag : Tag)
  | removeTag (a : Word) (id : Uuid)
  | setComment (a : Word) (text : String)
  | beginUndo
  | commitUndo
  | undo
  | redo

namespace UserEdit

def run : UserEdit → Op Unit
  | write a data => discard (Space.write a data)
  | insert a data => discard (Space.insert a data)
  | remove a length => discard (Space.remove a length)
  | addSegment start length dataOffset dataLength flags =>
    discard (Space.addSegmentOfLayout start length dataOffset dataLength flags false)
  | removeSegment start => discard (Space.removeSegment start false)
  | addSection section_ => Space.addSection section_ false
  | removeSection name => discard (Space.removeSection name false)
  | defineVariable a type => Space.defineVariable ⟨a, type, false⟩
  | undefineVariable a => discard (Space.undefineVariable a false)
  | defineSymbol symbol => Space.defineSymbol { symbol with auto := false }
  | undefineSymbol key => discard (Space.undefineSymbol key false)
  | defineType name type => discard (Space.defineType name type false)
  | undefineType name => discard (Space.undefineType name false)
  | renameType old new => discard (Space.renameType old new)
  | addTag a tag => discard (Space.addTag a tag false)
  | removeTag a id => discard (Space.removeTag a id false)
  | setComment a text => Space.setComment a text
  | beginUndo => Space.beginUndo
  | commitUndo => discard Space.commitUndo
  | undo => discard Space.undo
  | redo => discard Space.redo

/-- Bytes to put in have a length that is a word, and only types of the user's own are renamed. -/
def Permitted (s : Space) : UserEdit → Prop
  | insert _ data => data.length < 0x10000000000000000
  | renameType old _ => ∀ typeRecord, s.metadata.types.get? old = some typeRecord →
      typeRecord.auto = false
  | _ => True

end UserEdit

open Space

namespace Consistent

variable {backend : Backend} {first : Tables} {s after : Space} {action : UndoAction}

theorem noted (consistent : Consistent backend first s) {condition : Bool}
    (owns : after.Owns backend) (log : after.undoLog = s.undoLog)
    (linked : condition = true → Linked backend s.tables action after.tables)
    (same : condition = false → after.tables = s.tables) :
    Consistent backend first (Space.noted condition action after) := by
  cases condition with
  | true =>
    refine consistent.recorded ⟨owns.backend, owns.memory, owns.numbered⟩ ?_ (linked rfl)
    simp [Space.noted, log]
  | false =>
    exact consistent.unchanged ⟨owns.backend, owns.memory, owns.numbered⟩ log (same rfl)

/-- As `noted`, for an operation on the records of a space. -/
theorem notedRecord (consistent : Consistent backend first s) {condition : Bool}
    (kept : after.backend = s.backend ∧ after.storage = s.storage ∧ after.map = s.map ∧
      after.undoLog = s.undoLog)
    (linked : condition = true → Linked backend s.tables action after.tables)
    (same : condition = false → after.tables = s.tables) :
    Consistent backend first (Space.noted condition action after) := by
  obtain ⟨same_backend, storage, map, log⟩ := kept
  have owns := consistent.owns
  refine consistent.noted ⟨?_, ?_, ?_⟩ log linked same
  · rw [same_backend, owns.backend]
  · rw [storage, owns.memory]
  · rw [map]
    exact owns.numbered

/-- As `noted`, for an operation on the bytes of a space. -/
theorem notedBytes (consistent : Consistent backend first s) {storage : Storage}
    {condition : Bool} (memory : storage.medium = .memory)
    (linked : condition = true →
      Linked backend s.tables action { s.tables with bytes := storage.contents })
    (same : condition = false → storage.contents = s.storage.contents) :
    Consistent backend first (Space.noted condition action { s with storage := storage }) := by
  have owns := consistent.owns
  refine consistent.noted ⟨owns.backend, memory, owns.numbered⟩ rfl linked fun nothing => ?_
  rw [tables, same nothing]
  rfl

theorem write (consistent : Consistent backend first s) (a : Word) (data : List UInt8) :
    Consistent backend first ((Space.write a data) s).collect.2.2 := by
  by_cases given : data = []
  · subst given
    exact consistent
  · generalize wrote : s.backend.write s.map s.storage a data = outcome
    obtain ⟨storage, count⟩ := outcome
    obtain ⟨memory, linked, same⟩ := written_links consistent.owns consistent.sound wrote
    exact of_settles (write_settles given wrote)
      (consistent.notedBytes memory (by simpa using linked) (by simpa using same))

theorem insert (consistent : Consistent backend first s) (a : Word) {data : List UInt8}
    (bounded : data.length < 0x10000000000000000) :
    Consistent backend first ((Space.insert a data) s).collect.2.2 := by
  by_cases given : data = []
  · subst given
    exact consistent
  · generalize inserted : s.backend.insert s.storage a data = outcome
    obtain ⟨storage, count⟩ := outcome
    obtain ⟨memory, linked, same⟩ :=
      inserted_links consistent.owns consistent.sound given bounded inserted
    exact of_settles (insert_settles given inserted)
      (consistent.notedBytes memory (by simpa using linked) (by simpa using same))

theorem remove (consistent : Consistent backend first s) (a length : Word) :
    Consistent backend first ((Space.remove a length) s).collect.2.2 := by
  by_cases given : length = 0
  · subst given
    exact consistent
  · generalize removed : s.backend.remove s.storage a length = outcome
    obtain ⟨storage, count⟩ := outcome
    obtain ⟨memory, linked, same⟩ := removed_links consistent.owns consistent.sound removed
    exact of_settles (remove_settles given removed)
      (consistent.notedBytes memory (by simpa using linked) (by simpa using same))

theorem addSegment (consistent : Consistent backend first s)
    (start length dataOffset dataLength : Word) (flags : SegmentFlags) :
    Consistent backend first
      ((addSegmentOfLayout start length dataOffset dataLength flags false) s).collect.2.2 := by
  have owns := consistent.owns
  have sound := consistent.sound
  have map_sound : s.map.Sound := ⟨sound.map.auto, sound.map.user⟩
  unfold addSegmentOfLayout
  cases made : Segment.ofLayout start length dataOffset dataLength flags false with
  | error e => exact consistent
  | ok segment =>
    obtain ⟨wellFormed, user, -⟩ := Segment.ofLayout_eq_ok made
    show Consistent backend first ((Space.addSegment segment) s).collect.2.2
    by_cases occupied : s.map.Occupied segment
    · rw [addSegment_refused (SegmentMap.add_of_occupied map_sound wellFormed occupied)]
      exact consistent
    · obtain ⟨stored, -, stored_user, new, added, shown, added_sound, numbered⟩ :=
        SegmentMap.add_user map_sound owns.numbered wellFormed user occupied
      refine of_settles (addSegment_settles added shown)
        (consistent.noted ⟨owns.backend, owns.memory, numbered⟩ rfl (fun _ => ?_) ?_)
      · have after : ({ s.tables with
            map := s.tables.map.withUserSegment stored.start (some stored) } : Tables).Sound :=
          sound.withUserSegment ⟨added_sound.auto, added_sound.user⟩
            (by rintro _ ⟨⟩; exact stored_user)
        have linked : Linked backend _ _ _ := linked_segment sound after
        rwa [show s.tables.map.userSegments.get? stored.start = none from new] at linked
      · simp [stored_user]

theorem removeSegment (consistent : Consistent backend first s) (start : Word) :
    Consistent backend first ((Space.removeSegment start false) s).collect.2.2 := by
  have owns := consistent.owns
  have sound := consistent.sound
  have removed_sound :=
    SegmentMap.remove_sound (m := s.map) ⟨sound.map.auto, sound.map.user⟩ start false
  have numbered := SegmentMap.remove_numbered owns.numbered start false
  have settles := removeSegment_settles s start false
  cases held : (s.map.layer false).get? start with
  | none =>
    simp only [held] at settles
    refine of_settles settles (consistent.unchanged ⟨owns.backend, owns.memory, numbered⟩ rfl ?_)
    have same : s.map.withUserSegment start none = s.map := by
      have absent : s.map.userSegments.get? start = none := held
      rw [SegmentMap.withUserSegment, Table.alter_same absent]
    show { s with map := s.map.withUserSegment start none }.tables = s.tables
    rw [same]
  | some segment =>
    simp only [held] at settles
    refine of_settles settles
      (consistent.noted ⟨owns.backend, owns.memory, numbered⟩ rfl ?_ (by rintro ⟨⟩))
    intro _
    have after : ({ s.tables with map := s.tables.map.withUserSegment start none } :
        Tables).Sound :=
      sound.withUserSegment ⟨removed_sound.auto, removed_sound.user⟩ (by rintro _ ⟨⟩)
    have linked : Linked backend _ _ _ := linked_segment sound after
    rwa [show s.tables.map.userSegments.get? start = some segment from held] at linked

theorem addSection (consistent : Consistent backend first s) (section_ : Section) :
    Consistent backend first ((Space.addSection section_ false) s).collect.2.2 := by
  refine of_settles (addSection_settles s section_ false) (consistent.noted ?_ rfl ?_ nofun)
  · exact ⟨consistent.owns.backend, consistent.owns.memory, consistent.owns.numbered⟩
  · intro _
    exact linked_section consistent.sound (by rintro _ ⟨⟩; exact ⟨rfl, rfl⟩)

theorem removeSection (consistent : Consistent backend first s) (name : String) :
    Consistent backend first ((Space.removeSection name false) s).collect.2.2 := by
  have owns := consistent.owns
  have settles := removeSection_settles s name false
  cases held : s.map.userSections.get? name with
  | none =>
    have absent : (s.map.removeSection name false).2 = none := held
    simp only [absent] at settles
    refine of_settles settles
      (consistent.unchanged ⟨owns.backend, owns.memory, owns.numbered⟩ rfl ?_)
    have same : s.map.withUserSection name none = s.map := by
      rw [SegmentMap.withUserSection, Table.alter_same held]
    show { s with map := s.map.withUserSection name none }.tables = s.tables
    rw [same]
  | some section_ =>
    have present : (s.map.removeSection name false).2 = some section_ := held
    simp only [present] at settles
    refine of_settles settles
      (consistent.noted ⟨owns.backend, owns.memory, owns.numbered⟩ rfl ?_ (by rintro ⟨⟩))
    intro _
    have filed : ∀ s : Section, none = some s → s.name = name ∧ s.auto = false := by
      rintro _ ⟨⟩
    have linked : Linked backend _ _ _ := linked_section consistent.sound filed
    rwa [show s.tables.map.userSections.get? name = some section_ from held] at linked

theorem defineVariable (consistent : Consistent backend first s) (a : Word) (type : DataType) :
    Consistent backend first ((Space.defineVariable ⟨a, type, false⟩) s).collect.2.2 :=
  of_settles (defineVariable_settles s rfl) (consistent.notedRecord ⟨rfl, rfl, rfl, rfl⟩
    (fun _ => linked_variable consistent.sound a _) nofun)

theorem undefineVariable (consistent : Consistent backend first s) (a : Word) :
    Consistent backend first ((Space.undefineVariable a false) s).collect.2.2 := by
  refine of_settles (undefineVariable_settles s a) (consistent.notedRecord ⟨rfl, rfl, rfl, rfl⟩
    (fun _ => linked_variable consistent.sound a none) fun absent => ?_)
  rw [tables, Table.alter_same (by simpa using absent)]
  rfl

theorem defineSymbol (consistent : Consistent backend first s) (symbol : Symbol) :
    Consistent backend first
      ((Space.defineSymbol { symbol with auto := false }) s).collect.2.2 :=
  of_settles (defineSymbol_settles s rfl) (consistent.notedRecord ⟨rfl, rfl, rfl, rfl⟩
    (fun _ => linked_symbol consistent.sound _ _) nofun)

theorem undefineSymbol (consistent : Consistent backend first s) (key : SymbolKey) :
    Consistent backend first ((Space.undefineSymbol key false) s).collect.2.2 := by
  refine of_settles (undefineSymbol_settles s key) (consistent.notedRecord ⟨rfl, rfl, rfl, rfl⟩
    (fun _ => linked_symbol consistent.sound key none) fun absent => ?_)
  rw [tables, Table.alter_same (by simpa using absent)]
  rfl

theorem defineType (consistent : Consistent backend first s) (name : String) (type : DataType) :
    Consistent backend first ((Space.defineType name type false) s).collect.2.2 := by
  cases parsed : QualifiedName.parse name with
  | error e => exact of_settles (defineType_refused parsed s) consistent
  | ok qualified =>
    exact of_settles (defineType_settles s type parsed rfl)
      (consistent.notedRecord ⟨rfl, rfl, rfl, rfl⟩
        (fun _ => linked_type consistent.sound qualified.text _) nofun)

theorem undefineType (consistent : Consistent backend first s) (name : String) :
    Consistent backend first ((Space.undefineType name false) s).collect.2.2 := by
  refine of_settles (undefineType_settles s name) (consistent.notedRecord ⟨rfl, rfl, rfl, rfl⟩
    (fun _ => linked_type consistent.sound name none) fun absent => ?_)
  rw [tables, Table.alter_same (by simpa using absent)]
  rfl

theorem renameType (consistent : Consistent backend first s) (old new : String)
    (user : ∀ typeRecord, s.metadata.types.get? old = some typeRecord → typeRecord.auto = false) :
    Consistent backend first ((Space.renameType old new) s).collect.2.2 := by
  cases parsed : QualifiedName.parse new with
  | error e => exact of_settles (renameType_refused parsed s) consistent
  | ok qualified =>
    cases taken : s.metadata.types.contains qualified.text with
    | true => exact of_settles (renameType_taken s parsed taken) consistent
    | false =>
      cases held : s.metadata.types.get? old with
      | none => exact of_settles (renameType_absent s parsed taken held) consistent
      | some typeRecord =>
        refine of_settles (renameType_settles s parsed taken held (user typeRecord held)) ?_
        have owns := consistent.owns
        have begun := consistent.begun
        have gone : Linked backend _ _ _ := linked_type begun.sound old none
        rw [show (s.withLog (·.begin)).tables.types.get? old = some typeRecord from held] at gone
        have without : Consistent backend first { s with
            metadata := { s.metadata with types := s.metadata.types.alter old fun _ => none }
            undoLog := s.undoLog.begin.record (.type old (some typeRecord) none) } :=
          begun.recorded ⟨owns.backend, owns.memory, owns.numbered⟩ rfl gone
        have come : Linked backend _ _ _ :=
          linked_type without.sound qualified.text (some typeRecord)
        have free : (s.metadata.types.alter old fun _ => none).get? qualified.text = none := by
          have absent : s.metadata.types.get? qualified.text = none := by
            simpa [Table.contains] using taken
          rw [Table.get?_alter, absent, ite_self]
        simp only [tables] at come
        rw [free] at come
        have renamed : Consistent backend first { s with
            metadata := { s.metadata with
              types := (s.metadata.types.alter old fun _ => none).alter qualified.text
                fun _ => some typeRecord }
            undoLog := (s.undoLog.begin.record (.type old (some typeRecord) none)).record
              (.type qualified.text none (some typeRecord)) } :=
          without.recorded ⟨owns.backend, owns.memory, owns.numbered⟩ rfl come
        exact renamed.committed

theorem addTag (consistent : Consistent backend first s) (a : Word) (tag : Tag) :
    Consistent backend first ((Space.addTag a tag false) s).collect.2.2 := by
  cases known : s.metadata.tagTypes.contains tag.type with
  | false => exact of_settles (addTag_refused s a false known) consistent
  | true =>
    exact of_settles (addTag_settles s a known) (consistent.notedRecord ⟨rfl, rfl, rfl, rfl⟩
      (fun _ => linked_tag consistent.sound _ _) nofun)

theorem removeTag (consistent : Consistent backend first s) (a : Word) (id : Uuid) :
    Consistent backend first ((Space.removeTag a id false) s).collect.2.2 := by
  refine of_settles (removeTag_settles s a id) (consistent.notedRecord ⟨rfl, rfl, rfl, rfl⟩
    (fun _ => linked_tag consistent.sound ⟨a, id⟩ none) fun absent => ?_)
  rw [tables, Table.alter_same (by simpa using absent)]
  rfl

theorem setComment (consistent : Consistent backend first s) (a : Word) (text : String) :
    Consistent backend first ((Space.setComment a text) s).collect.2.2 := by
  refine of_settles (setComment_settles s a text) (consistent.notedRecord ⟨rfl, rfl, rfl, rfl⟩
    (fun _ => linked_comment consistent.sound a text) fun same => ?_)
  rw [tables, Table.alter_same (by simpa using same)]
  rfl

theorem edit (consistent : Consistent backend first s) (edit : UserEdit)
    (permitted : edit.Permitted s) : Consistent backend first ((edit.run) s).collect.2.2 := by
  cases edit with
  | write a data =>
    rw [UserEdit.run, Op.collect_discard]
    exact consistent.write a data
  | insert a data =>
    rw [UserEdit.run, Op.collect_discard]
    exact consistent.insert a permitted
  | remove a length =>
    rw [UserEdit.run, Op.collect_discard]
    exact consistent.remove a length
  | addSegment start length dataOffset dataLength flags =>
    rw [UserEdit.run, Op.collect_discard]
    exact consistent.addSegment start length dataOffset dataLength flags
  | removeSegment start =>
    rw [UserEdit.run, Op.collect_discard]
    exact consistent.removeSegment start
  | addSection section_ => exact consistent.addSection section_
  | removeSection name =>
    rw [UserEdit.run, Op.collect_discard]
    exact consistent.removeSection name
  | defineVariable a type => exact consistent.defineVariable a type
  | undefineVariable a =>
    rw [UserEdit.run, Op.collect_discard]
    exact consistent.undefineVariable a
  | defineSymbol symbol => exact consistent.defineSymbol symbol
  | undefineSymbol key =>
    rw [UserEdit.run, Op.collect_discard]
    exact consistent.undefineSymbol key
  | defineType name type =>
    rw [UserEdit.run, Op.collect_discard]
    exact consistent.defineType name type
  | undefineType name =>
    rw [UserEdit.run, Op.collect_discard]
    exact consistent.undefineType name
  | renameType old new =>
    rw [UserEdit.run, Op.collect_discard]
    exact consistent.renameType old new permitted
  | addTag a tag =>
    rw [UserEdit.run, Op.collect_discard]
    exact consistent.addTag a tag
  | removeTag a id =>
    rw [UserEdit.run, Op.collect_discard]
    exact consistent.removeTag a id
  | setComment a text => exact consistent.setComment a text
  | beginUndo => exact consistent.begun
  | commitUndo => exact consistent.committed
  | undo =>
    rw [UserEdit.run, Op.collect_discard]
    exact consistent.after_undo
  | redo =>
    rw [UserEdit.run, Op.collect_discard]
    exact consistent.after_redo

end Consistent

namespace Space

/-- The spaces that a user's edits lead to from some space. -/
inductive Edited (initial : Space) : Space → Prop where
  | start : Edited initial initial
  | edited {s : Space} (before : Edited initial s) (edit : UserEdit)
      (permitted : edit.Permitted s) : Edited initial ((edit.run) s).collect.2.2

/-- Where taking back leads that goes on until there is nothing left to take back. -/
inductive TakenBack : Space → Space → Prop where
  | nothing {s : Space} (refused : ((undo) s).collect.2.1 = false) :
      TakenBack s ((undo) s).collect.2.2
  | further {s last : Space} (undid : ((undo) s).collect.2.1 = true)
      (rest : TakenBack ((undo) s).collect.2.2 last) : TakenBack s last

variable {backend : Backend} {first : Tables} {initial s last : Space}

theorem edited_consistent (edited : Edited initial s)
    (consistent : Consistent backend first initial) : Consistent backend first s := by
  induction edited with
  | start => exact consistent
  | edited _ edit permitted ih => exact ih.edit edit permitted

/-- Outside groups, taking back is refused only when nothing is left, and else leaves an entry
less. -/
theorem undo_outside (consistent : Consistent backend first s) (outside : s.undoLog.depth = 0) :
    (s.undoLog.past = [] ∧ ((undo) s).collect.2 = (false, s)) ∨
      ((undo) s).collect.2.1 = true ∧ ((undo) s).collect.2.2.undoLog.depth = 0 ∧
        ((undo) s).collect.2.2.undoLog.past.length < s.undoLog.past.length := by
  have no_group : s.undoLog.inGroup = false := by simp [UndoLog.inGroup, outside]
  cases past : s.undoLog.past with
  | nil => exact .inl ⟨rfl, undo_refused (.inr past)⟩
  | cons entry earlier =>
    obtain ⟨middle, -, last_entry⟩ := consistent.latest_links no_group past
    obtain ⟨answer, -, log, -⟩ := last_entry.undo consistent.owns no_group past
    refine .inr ⟨answer, ?_, ?_⟩
    · rw [log]
      exact outside
    · rw [log]
      exact Nat.lt_succ_self _

theorem takenBack_exists (consistent : Consistent backend first s)
    (outside : s.undoLog.depth = 0) : ∃ last, TakenBack s last := by
  induction entries : s.undoLog.past.length using Nat.strongRecOn generalizing s with
  | ind entries ih =>
    subst entries
    rcases undo_outside consistent outside with ⟨-, refused⟩ | ⟨undid, still_outside, fewer⟩
    · exact ⟨_, .nothing (by rw [refused])⟩
    · obtain ⟨last, rest⟩ := ih _ fewer consistent.after_undo still_outside rfl
      exact ⟨last, .further undid rest⟩

theorem takenBack_tables (back : TakenBack s last) (consistent : Consistent backend first s)
    (outside : s.undoLog.depth = 0) : last.tables = first := by
  induction back with
  | nothing refused =>
    rcases undo_outside consistent outside with ⟨none, same⟩ | ⟨undid, -⟩
    · have done := consistent.done
      rw [UndoLog.done, none, consistent.closed outside] at done
      rw [same]
      cases done with
      | nil => rfl
    · rw [refused] at undid
      cases undid
  | further undid _ ih =>
    rcases undo_outside consistent outside with ⟨-, same⟩ | ⟨-, still_outside, -⟩
    · rw [same] at undid
      cases undid
    · exact ih consistent.after_undo still_outside

/-- From tables without empty comments on, whatever a user does can be taken back: each entry so
that doing it again restores what was there, and all of them so that the first tables are back. -/
theorem undo_redo_correct (memory : initial.storage.medium = .memory)
    (sound : initial.tables.Sound) (numbered : initial.map.Numbered)
    (unlogged : initial.undoLog = .empty) (edited : Edited initial s)
    (outside : s.undoLog.depth = 0) :
    (((undo) s).collect.2.1 = true →
      ((redo) ((undo) s).collect.2.2).collect.2.1 = true ∧
        ((redo) ((undo) s).collect.2.2).collect.2.2.tables = s.tables) ∧
    (∃ last, TakenBack s last) ∧ ∀ last, TakenBack s last → last.tables = initial.tables := by
  have start : Consistent initial.backend initial.tables initial := by
    have chain : Chain initial.backend initial.tables [] initial.tables := .nil sound
    refine ⟨⟨rfl, memory, numbered⟩, ?_, ?_, ?_, initial.tables, ?_⟩
    · rw [unlogged]
      rfl
    · rw [unlogged]
      exact fun _ => rfl
    · rw [unlogged]
      exact chain
    · rw [unlogged]
      exact chain
  have consistent := edited_consistent edited start
  exact ⟨consistent.redo_undo, takenBack_exists consistent outside,
    fun last back => takenBack_tables back consistent outside⟩

/-- A space with an automatic variable and a comment. -/
def annotatedSpace (comment : String) : Space :=
  { backend := .raw, storage := .inMemory [1, 2, 3, 4], map := .empty,
    metadata := { Metadata.empty with
      dataVariables := .insert .empty 2 ⟨2, .integer 1 false, true⟩
      comments := .insert .empty 2 comment },
    functions := .empty, undoLog := .empty, scheduler := .initial, architecture := none,
    config := {}, parentView := none, bulk := ⟨0, []⟩, idsMade := 0 }

theorem annotatedSpace_sound : (annotatedSpace "here").tables.Sound where
  map := ⟨SegmentLayer.sound_empty, SegmentLayer.sound_empty⟩
  userSegments held := by simp [annotatedSpace, tables, SegmentMap.empty] at held
  userSections held := by simp [annotatedSpace, tables, SegmentMap.empty] at held
  comments a := by
    simp only [annotatedSpace, tables, Table.get?_insert]
    split <;> simp

theorem annotated_edits_undone : ∃ s last, Edited (annotatedSpace "here") s ∧
    s.tables.dataVariables.get? 2 = some ⟨2, .integer 1 true, false⟩ ∧
    s.tables.bytes = [1, 9, 2, 3, 4] ∧ TakenBack s last ∧
    last.tables = (annotatedSpace "here").tables := by
  have begun : Edited (annotatedSpace "here") _ := .start
  have opened := begun.edited .beginUndo trivial
  have defined := opened.edited (.defineVariable 2 (.integer 1 true)) trivial
  have inserted := defined.edited (.insert 1 [9]) (show 1 < 0x10000000000000000 by decide)
  have edited := (inserted.edited (.setComment 2 "") trivial).edited .commitUndo trivial
  obtain ⟨-, ⟨last, back⟩, restored⟩ := undo_redo_correct rfl annotatedSpace_sound
    (by simp [SegmentMap.Numbered, SegmentMap.allSegments, annotatedSpace, SegmentMap.empty,
      Table.values, Table.empty]) rfl edited rfl
  exact ⟨_, last, edited, by decide +kernel, by decide +kernel, back, restored last back⟩

/-- An empty comment is not put back: to set an empty text takes a comment away. -/
theorem empty_comment_lost : ∃ s last, Edited (annotatedSpace "") s ∧ s.undoLog.depth = 0 ∧
    TakenBack s last ∧ (annotatedSpace "").tables.comments.get? 2 = some "" ∧
    last.tables.comments.get? 2 = none := by
  have begun : Edited (annotatedSpace "") _ := .start
  refine ⟨_, _, begun.edited (.setComment 2 "x") trivial, rfl, .further rfl (.nothing rfl), ?_, ?_⟩
  · decide +kernel
  · decide +kernel

end Space

end BinaryAtlas
