import BinaryAtlas.Proofs.SegmentMap.Writing
import BinaryAtlas.Proofs.Space.Bytes
import BinaryAtlas.Proofs.Space.Layout
import BinaryAtlas.Proofs.Space.Records
import BinaryAtlas.Proofs.Space.Replaying
import BinaryAtlas.Proofs.Storage.Restoring

/-!
What replaying one action makes of the bytes and tables of a space that owns its memory. An action
links the tables before and after it if replaying it leads from the one to the other, and replaying
its inverse leads back.
-/

set_option autoImplicit false

namespace BinaryAtlas

/-- The bytes of a space and its tables, as far as entries of the log can change them. -/
structure Tables where
  bytes : List UInt8
  map : SegmentMap
  dataVariables : Table Word DataVariable
  symbols : Table SymbolKey Symbol
  types : Table String TypeRecord
  tags : Table TagKey TagReference
  comments : Table Word String

namespace Space

/-- The number issued last is no table: what is taken back does not give it back. -/
def tables (s : Space) : Tables where
  bytes := s.storage.contents
  map := { s.map with lastId := 0 }
  dataVariables := s.metadata.dataVariables
  symbols := s.metadata.symbols
  types := s.metadata.types
  tags := s.metadata.tags
  comments := s.metadata.comments

/-- A space of some backend over memory of its own. -/
structure Owns (backend : Backend) (s : Space) : Prop where
  backend : s.backend = backend
  memory : s.storage.medium = .memory
  numbered : s.map.Numbered

end Space

namespace Tables

/-- What the operations of a space keep up in its tables. -/
structure Sound (t : Tables) : Prop where
  map : t.map.Sound
  userSegments : ∀ {start s}, t.map.userSegments.get? start = some s → s.auto = false
  userSections : ∀ {name s}, t.map.userSections.get? name = some s →
    s.name = name ∧ s.auto = false
  comments : ∀ a, t.comments.get? a ≠ some ""

end Tables

open Space

/-- Replaying the action leads from some tables to others, and notes nothing. -/
def Replays (backend : Backend) (action : UndoAction) (t t' : Tables) : Prop :=
  ∀ s : Space, s.Owns backend → s.undoLog.replaying = true → s.tables = t →
    ((redoAction action) s).collect.2.2.Owns backend ∧
      ((redoAction action) s).collect.2.2.undoLog = s.undoLog ∧
      ((redoAction action) s).collect.2.2.tables = t'

structure Linked (backend : Backend) (t : Tables) (action : UndoAction) (t' : Tables) : Prop where
  before : t.Sound
  after : t'.Sound
  redone : Replays backend action t t'
  undone : Replays backend (inverse action) t' t

namespace Space

variable {α : Type} {backend : Backend} {s after : Space} {answer : α}

theorem inverse_inverse (action : UndoAction) : inverse (inverse action) = action := by
  cases action <;> rfl

theorem record_of_replaying {log : UndoLog} (replaying : log.replaying = true)
    (action : UndoAction) : log.record action = log := by
  rw [UndoLog.record, if_pos replaying]

theorem Owns.of_settles {op : Op α} (settles : op.Settles s answer after)
    (owns : after.Owns backend) : (op s).collect.2.2.Owns backend := by
  have same : (op s).collect.2.2.backend = after.backend := settles.shows fun _ => rfl
  have storage : (op s).collect.2.2.storage = after.storage := settles.shows fun _ => rfl
  constructor
  · rw [same, owns.backend]
  · rw [storage, owns.memory]
  · rw [settles.map]
    exact owns.numbered

theorem tables_of_settles {op : Op α} (settles : op.Settles s answer after) :
    (op s).collect.2.2.tables = after.tables :=
  settles.shows fun _ => rfl

end Space

theorem replays_of_settles {backend : Backend} {action : UndoAction} {t t' : Tables}
    (settles : ∀ s : Space, s.Owns backend → s.undoLog.replaying = true → s.tables = t →
      ∃ after : Space, (redoAction action).Settles s () after ∧ after.Owns backend ∧
        after.undoLog = s.undoLog ∧ after.tables = t') :
    Replays backend action t t' := by
  intro s owns replaying tables
  obtain ⟨after, leads, still_owns, log, result⟩ := settles s owns replaying tables
  exact ⟨.of_settles leads still_owns, leads.undoLog.trans log,
    (tables_of_settles leads).trans result⟩

theorem linked_of_replays {backend : Backend} {action : UndoAction} {t t' back : Tables}
    (before : t.Sound) (after : t'.Sound) (redone : Replays backend action t t')
    (undone : Replays backend (inverse action) t' back) (same : back = t) :
    Linked backend t action t' :=
  ⟨before, after, redone, same ▸ undone⟩

section Records

variable (backend : Backend) (t : Tables)

theorem replays_variable (a : Word) (before state : Option DataVariable) :
    Replays backend (.variable a before state) t
      { t with dataVariables := t.dataVariables.alter a fun _ => state } :=
  replays_of_settles fun s owns _ tables =>
    ⟨_, restoreVariable_settles s a state, ⟨owns.backend, owns.memory, owns.numbered⟩, rfl,
      by rw [← tables]; rfl⟩

theorem replays_symbol (key : SymbolKey) (before state : Option Symbol) :
    Replays backend (.symbol key before state) t
      { t with symbols := t.symbols.alter key fun _ => state } :=
  replays_of_settles fun s owns _ tables =>
    ⟨_, restoreSymbol_settles s key state, ⟨owns.backend, owns.memory, owns.numbered⟩, rfl,
      by rw [← tables]; rfl⟩

theorem replays_type (name : String) (before state : Option TypeRecord) :
    Replays backend (.type name before state) t
      { t with types := t.types.alter name fun _ => state } :=
  replays_of_settles fun s owns _ tables =>
    ⟨_, restoreType_settles s name state, ⟨owns.backend, owns.memory, owns.numbered⟩, rfl,
      by rw [← tables]; rfl⟩

theorem replays_tag (key : TagKey) (before state : Option TagReference) :
    Replays backend (.tag key before state) t
      { t with tags := t.tags.alter key fun _ => state } :=
  replays_of_settles fun s owns _ tables =>
    ⟨_, restoreTag_settles s key state, ⟨owns.backend, owns.memory, owns.numbered⟩, rfl,
      by rw [← tables]; rfl⟩

/-- To set an empty text takes a comment away, so only texts that are not empty come back. -/
theorem replays_comment (a : Word) (before : Option String) {state : Option String}
    (nonempty : state ≠ some "") :
    Replays backend (.comment a before state) t
      { t with comments := t.comments.alter a fun _ => state } := by
  have restored : commentOf (state.getD "") = state := by
    cases state with
    | none => rfl
    | some text => simpa [commentOf] using nonempty
  refine replays_of_settles fun s owns replaying tables => ?_
  have settles := setComment_settles s a (state.getD "")
  simp only [noted, record_of_replaying replaying, ite_self, restored] at settles
  exact ⟨_, settles, ⟨owns.backend, owns.memory, owns.numbered⟩, rfl, by rw [← tables]; rfl⟩

variable {backend t} (sound : t.Sound)
include sound

theorem linked_variable (a : Word) (state : Option DataVariable) :
    Linked backend t (.variable a (t.dataVariables.get? a) state)
      { t with dataVariables := t.dataVariables.alter a fun _ => state } :=
  linked_of_replays sound ⟨sound.map, sound.userSegments, sound.userSections, sound.comments⟩
    (replays_variable backend t a _ state) (replays_variable backend _ a state _)
    (by rw [Table.alter_back])

theorem linked_symbol (key : SymbolKey) (state : Option Symbol) :
    Linked backend t (.symbol key (t.symbols.get? key) state)
      { t with symbols := t.symbols.alter key fun _ => state } :=
  linked_of_replays sound ⟨sound.map, sound.userSegments, sound.userSections, sound.comments⟩
    (replays_symbol backend t key _ state) (replays_symbol backend _ key state _)
    (by rw [Table.alter_back])

theorem linked_type (name : String) (state : Option TypeRecord) :
    Linked backend t (.type name (t.types.get? name) state)
      { t with types := t.types.alter name fun _ => state } :=
  linked_of_replays sound ⟨sound.map, sound.userSegments, sound.userSections, sound.comments⟩
    (replays_type backend t name _ state) (replays_type backend _ name state _)
    (by rw [Table.alter_back])

theorem linked_tag (key : TagKey) (state : Option TagReference) :
    Linked backend t (.tag key (t.tags.get? key) state)
      { t with tags := t.tags.alter key fun _ => state } :=
  linked_of_replays sound ⟨sound.map, sound.userSegments, sound.userSections, sound.comments⟩
    (replays_tag backend t key _ state) (replays_tag backend _ key state _)
    (by rw [Table.alter_back])

theorem linked_comment (a : Word) (text : String) :
    Linked backend t (.comment a (t.comments.get? a) (commentOf text))
      { t with comments := t.comments.alter a fun _ => commentOf text } := by
  refine linked_of_replays sound ⟨sound.map, sound.userSegments, sound.userSections, fun b => ?_⟩
    (replays_comment backend t a _ (commentOf_ne_empty text))
    (replays_comment backend _ a _ (sound.comments a)) (by rw [Table.alter_back])
  rw [Table.get?_alter]
  split
  · exact commentOf_ne_empty text
  · exact sound.comments b

end Records

section Layout

variable {backend : Backend} {t : Tables}

theorem replays_segment (start : Word) (before : Option Segment) {state : Option Segment}
    (sound : ({ t with map := t.map.withUserSegment start state } : Tables).Sound) :
    Replays backend (.segment start before state) t
      { t with map := t.map.withUserSegment start state } := by
  refine replays_of_settles fun s owns _ tables => ⟨_, restoreSegment_settles s start state,
    ⟨owns.backend, owns.memory, SegmentMap.reset_numbered owns.numbered start state⟩, rfl, ?_⟩
  subst tables
  cases state with
  | none => rfl
  | some segment =>
    have held : (s.map.withUserSegment start (some segment)).userSegments.get? start =
        some segment := by
      simp [SegmentMap.withUserSegment, Table.get?_alter]
    obtain rfl := sound.map.user.filed held
    have kept : (s.map.withUserSegment segment.start (some segment)).Sound :=
      ⟨sound.map.auto, sound.map.user⟩
    rw [SegmentMap.reset_some (sound.userSegments held) kept]
    rfl

theorem replays_section (name : String) (before : Option Section) {state : Option Section}
    (filed : ∀ s, state = some s → s.name = name ∧ s.auto = false) :
    Replays backend (.section name before state) t
      { t with map := t.map.withUserSection name state } := by
  refine replays_of_settles fun s owns _ tables =>
    ⟨_, restoreSection_settles s name state, ?_, rfl, ?_⟩
  · rw [SegmentMap.resetSection_eq _ filed]
    exact ⟨owns.backend, owns.memory, owns.numbered⟩
  · rw [SegmentMap.resetSection_eq _ filed, ← tables]
    rfl

theorem Tables.Sound.withUserSegment {start : Word} {state : Option Segment} (sound : t.Sound)
    (map : (t.map.withUserSegment start state).Sound)
    (user : ∀ s, state = some s → s.auto = false) :
    ({ t with map := t.map.withUserSegment start state } : Tables).Sound := by
  refine ⟨map, ?_, sound.userSections, sound.comments⟩
  intro key s held
  rw [SegmentMap.withUserSegment, Table.get?_alter] at held
  split at held
  · exact user s held
  · exact sound.userSegments held

theorem linked_segment {start : Word} {state : Option Segment} (sound : t.Sound)
    (after : ({ t with map := t.map.withUserSegment start state } : Tables).Sound) :
    Linked backend t (.segment start (t.map.userSegments.get? start) state)
      { t with map := t.map.withUserSegment start state } := by
  have back : (t.map.withUserSegment start state).withUserSegment start
      (t.map.userSegments.get? start) = t.map := by
    simp [SegmentMap.withUserSegment, Table.alter_back]
  refine linked_of_replays sound after (replays_segment start _ after)
    (replays_segment start state ?_) (by rw [back])
  rw [back]
  exact sound

theorem linked_section (sound : t.Sound) {name : String} {state : Option Section}
    (filed : ∀ s, state = some s → s.name = name ∧ s.auto = false) :
    Linked backend t (.section name (t.map.userSections.get? name) state)
      { t with map := t.map.withUserSection name state } := by
  have back : (t.map.withUserSection name state).withUserSection name
      (t.map.userSections.get? name) = t.map := by
    simp [SegmentMap.withUserSection, Table.alter_back]
  refine linked_of_replays sound ⟨⟨sound.map.auto, sound.map.user⟩, sound.userSegments, ?_,
    sound.comments⟩ (replays_section name _ filed)
    (replays_section name state fun s held => sound.userSections held) (by rw [back])
  intro other s held
  rw [SegmentMap.withUserSection, Table.get?_alter] at held
  split at held
  · rename_i here
    rw [here]
    exact filed s held
  · exact sound.userSections held

end Layout

end BinaryAtlas
