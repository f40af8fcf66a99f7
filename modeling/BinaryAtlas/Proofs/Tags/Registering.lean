import BinaryAtlas.Proofs.Mirror.Records
import BinaryAtlas.Proofs.Snapshot.Faithful
import BinaryAtlas.Proofs.Space.Records
import BinaryAtlas.Proofs.Space.Replaying
import Mathlib.Data.List.Induction

/-!
Tags and the registered types. A type that is taken out takes its tags along, so a tag whose type is
not registered has come back out of the log.
-/

set_option autoImplicit false

namespace BinaryAtlas

namespace UndoAction

/-- Taking the action back or doing it again may bring a tag of the type. -/
def bringsTag (type : Uuid) : UndoAction → Bool
  | .tag _ before after => before.any (·.tag.type == type) || after.any (·.tag.type == type)
  | _ => false

/-- The action is on a tag, and one of the type only under a condition. -/
def OnTag (type : Uuid) (condition : Prop) : UndoAction → Prop
  | .tag _ before after =>
    ∀ r, before = some r ∨ after = some r → r.tag.type = type → condition
  | _ => False

variable {type : Uuid} {condition other : Prop} {action : UndoAction}

theorem OnTag.inverse (onTag : action.OnTag type condition) :
    (Space.inverse action).OnTag type condition := by
  cases action with
  | tag key before after => exact fun r present => onTag r present.symm
  | _ => exact onTag

theorem OnTag.imp (onTag : action.OnTag type condition) (weaker : condition → other) :
    action.OnTag type other := by
  cases action with
  | tag key before after => exact fun r present same => weaker (onTag r present same)
  | _ => exact onTag

theorem OnTag.of_not_brings (onTag : action.OnTag type condition)
    (foreign : action.bringsTag type = false) : action.OnTag type other := by
  cases action with
  | tag key before after =>
    simp only [bringsTag, Bool.or_eq_false_iff, Option.any_eq_false, beq_eq_false_iff_ne] at foreign
    rintro r (held | held) same
    · exact absurd same (foreign.1 r held)
    · exact absurd same (foreign.2 r held)
  | _ => exact onTag

end UndoAction

namespace UndoLog

def bringsTag (log : UndoLog) (type : Uuid) : Bool :=
  (log.past.flatten ++ log.future.flatten ++ log.group).any (·.bringsTag type)

theorem Holds.of_not_brings {type : Uuid} {condition other : Prop} {log : UndoLog}
    (holds : log.Holds (·.OnTag type condition)) (foreign : log.bringsTag type = false) :
    log.Holds (·.OnTag type other) := by
  simp only [bringsTag, List.any_append, Bool.or_eq_false_iff, List.any_eq_false,
    List.mem_flatten, Bool.not_eq_true] at foreign
  obtain ⟨⟨past, future⟩, group⟩ := foreign
  constructor
  · exact fun entry member action inside =>
      (holds.past entry member action inside).of_not_brings (past action ⟨entry, member, inside⟩)
  · exact fun entry member action inside =>
      (holds.future entry member action inside).of_not_brings
        (future action ⟨entry, member, inside⟩)
  · exact fun action inside => (holds.group action inside).of_not_brings (group action inside)

theorem commit_holds {kind : UndoAction → Prop} {log : UndoLog} (holds : log.Holds kind) :
    log.commit.1.Holds kind := by
  obtain ⟨past, future, group, depth, replaying⟩ := log
  match depth with
  | 0 => exact holds
  | 1 =>
    unfold commit
    simp only
    split
    · exact ⟨holds.past, holds.future, holds.group⟩
    · refine ⟨fun entry member => ?_, holds.future, by simp⟩
      rcases List.mem_cons.1 member with rfl | earlier
      · exact holds.group
      · exact holds.past entry earlier
  | depth + 2 => exact ⟨holds.past, holds.future, holds.group⟩

end UndoLog

namespace Table

variable {K V : Type} [Ord K] [Std.TransOrd K] [Std.LawfulEqOrd K] [Provenance V]

theorem get?_define_eq_some {t : Table K V} {k query : K} {v found : V}
    (held : (t.define k v).1.get? query = some found) :
    found = v ∨ t.get? query = some found := by
  have inserted (held : (t.insert k v).get? query = some found) :
      found = v ∨ t.get? query = some found :=
    (get?_insert_eq_some_iff.1 held).imp (·.2) (·.2)
  unfold define at held
  cases before : t.get? k with
  | none =>
    simp only [before] at held
    exact inserted held
  | some old =>
    simp only [before] at held
    split at held
    · exact .inr held
    · split at held <;> exact inserted held

omit [Std.TransOrd K] in
theorem get?_of_undefine {t : Table K V} {k query : K} {auto : Bool} {found : V}
    (held : (t.undefine k auto).1.get? query = some found) : t.get? query = some found := by
  cases removed : (t.undefine k auto).2 with
  | none => rwa [undefine_eq_none removed] at held
  | some v =>
    rw [(undefine_eq_some removed).2] at held
    exact (get?_erase_eq_some_iff.1 held).2

end Table

namespace Space

variable {type : Uuid} {s s' : Space}

/-- An automatic tag is not noted, and neither is one that gives way to a user's. -/
theorem addTag_known_settles (s : Space) (a : Word) {tag : Tag} (auto : Bool)
    (known : s.metadata.tagTypes.contains tag.type = true) :
    let outcome := s.metadata.tags.define ⟨a, tag.id⟩ (⟨tag, a, auto⟩ : TagReference)
    (addTag a tag auto).Settles s (.ok ())
      (noted (!auto && !outcome.2.isIgnored)
        (.tag ⟨a, tag.id⟩ outcome.2.before? (some ⟨tag, a, auto⟩))
        { s with metadata := { s.metadata with tags := outcome.1 } }) := by
  unfold addTag
  simp only [Op.read_bind_settles, known, Bool.not_true, Bool.false_eq_true, if_false,
    Op.update_bind_settles, recordIf_bind_settles]
  cases (s.metadata.tags.define ⟨a, tag.id⟩ (⟨tag, a, auto⟩ : TagReference)).2 <;> simp

theorem removeTag_any_settles (s : Space) (a : Word) (id : Uuid) (auto : Bool) :
    let outcome := s.metadata.tags.undefine ⟨a, id⟩ auto
    (removeTag a id auto).Settles s outcome.2.isSome
      (noted (outcome.2.isSome && !auto) (.tag ⟨a, id⟩ outcome.2 none)
        { s with metadata := { s.metadata with tags := outcome.1 } }) := by
  unfold removeTag
  simp only [Op.update_bind_settles]
  cases (s.metadata.tags.undefine ⟨a, id⟩ auto).2 <;> simp [noted]

/-- Where a tag of the type hangs, or the log is on one, the type is registered. -/
structure Registers (type : Uuid) (s : Space) : Prop where
  stored : ∀ key r, s.metadata.tags.get? key = some r → r.tag.type = type →
    s.metadata.tagTypes.contains type = true
  logged : s.undoLog.Holds (·.OnTag type (s.metadata.tagTypes.contains type = true))

/-- What the registration of tags is about. -/
def tagging (s : Space) := (s.metadata.tags, s.metadata.tagTypes, s.undoLog)

namespace Registers

theorem of_tagging (registers : s.Registers type) (same : s'.tagging = s.tagging) :
    s'.Registers type := by
  simp only [tagging, Prod.mk.injEq] at same
  obtain ⟨tags, types, log⟩ := same
  refine ⟨?_, ?_⟩
  · rw [tags, types]
    exact registers.stored
  · rw [types, log]
    exact registers.logged

theorem of_settles {α : Type} {op : Op α} {answer : α} (settles : op.Settles s answer s')
    (registers : s'.Registers type) : (op s).collect.2.2.Registers type :=
  registers.of_tagging (settles.shows fun _ => rfl)

/-- Other types may come, and tags may go. -/
theorem changed (registers : s.Registers type)
    (fewer : ∀ key r, s'.metadata.tags.get? key = some r → r.tag.type = type →
      s'.metadata.tagTypes.contains type = true ∨ s.metadata.tags.get? key = some r)
    (log : s'.undoLog = s.undoLog)
    (types : s.metadata.tagTypes.contains type = true →
      s'.metadata.tagTypes.contains type = true) : s'.Registers type where
  stored key r held same :=
    (fewer key r held same).elim id fun before => types (registers.stored key r before same)
  logged := by
    rw [log]
    exact registers.logged.imp fun action onTag => onTag.imp types

theorem noted (registers : s.Registers type) {condition : Bool} {action : UndoAction}
    (known : condition = true → action.OnTag type (s.metadata.tagTypes.contains type = true)) :
    (Space.noted condition action s).Registers type := by
  cases condition with
  | false => exact registers
  | true => exact ⟨registers.stored, UndoLog.record_holds registers.logged (known rfl)⟩

theorem addTagType (registers : s.Registers type) (new : TagType) :
    ((Space.addTagType new) s).collect.2.2.Registers type := by
  have settles : (Space.addTagType new).Settles s () { s with metadata := { s.metadata with
      tagTypes := s.metadata.tagTypes.insert new.id new } } := by
    unfold Space.addTagType editMetadata
    rw [Op.read_bind_settles, Op.modify_bind_settles]
    split
    · exact Op.pure_settles _ _
    · exact emit_settles _ _
  refine of_settles settles (registers.changed (fun _ _ held _ => .inr held) rfl fun known => ?_)
  rw [Table.contains_insert, known, Bool.or_true]

theorem createTagType (registers : s.Registers type) (name icon : String) :
    ((Space.createTagType name icon) s).collect.2.2.Registers type := by
  unfold Space.createTagType freshId
  rw [Op.collect_update_bind, Op.collect_bind]
  have numbered : { s with idsMade := s.idsMade + 1 }.Registers type := registers.of_tagging rfl
  exact numbered.addTagType _

/-- A type may go with its tags as long as the log does not know one of them. -/
theorem removeTagType (registers : s.Registers type) (id : Uuid)
    (unknown : id = type → s.undoLog.bringsTag type = false) :
    ((Space.removeTagType id) s).collect.2.2.Registers type := by
  cases held : s.metadata.tagTypes.get? id with
  | none =>
    have settles : (Space.removeTagType id).Settles s false s := by
      simp [Space.removeTagType, held]
    exact of_settles settles registers
  | some known =>
    have settles : (Space.removeTagType id).Settles s true { s with metadata := { s.metadata with
        tagTypes := s.metadata.tagTypes.erase id
        tags := s.metadata.tags.filter (fun _ r => r.tag.type != id) } } := by
      simp [Space.removeTagType, held, editMetadata]
    refine of_settles settles ?_
    by_cases own : id = type
    · subst own
      refine ⟨fun key r held same => ?_, registers.logged.of_not_brings (unknown rfl)⟩
      have kept := ((Table.get?_filter_eq_some_iff ..).1 held).2
      simp [same] at kept
    · refine registers.changed (fun key r held _ => ?_) rfl fun contained => ?_
      · exact .inr ((Table.get?_filter_eq_some_iff ..).1 held).1
      · show ((s.metadata.tagTypes.erase id).get? type).isSome = true
        rw [Table.get?_erase_of_ne _ (Ne.symm own)]
        exact contained

theorem addTag (registers : s.Registers type) (a : Word) (tag : Tag) (auto : Bool) :
    ((Space.addTag a tag auto) s).collect.2.2.Registers type := by
  cases known : s.metadata.tagTypes.contains tag.type with
  | false => exact of_settles (addTag_refused s a auto known) registers
  | true =>
    have settles := addTag_known_settles s a auto known
    refine of_settles settles (.noted ?_ fun _ => ?_)
    · refine registers.changed (fun key r held same => ?_) rfl id
      refine (Table.get?_define_eq_some held).imp (fun here => ?_) id
      rw [← same, here]
      exact known
    · rintro r (before | here) same
      · exact registers.stored _ r (Table.define_before before) same
      · rw [← same, ← Option.some.inj here]
        exact known

theorem createTag (registers : s.Registers type) (a : Word) (own : Uuid) (data : String)
    (auto : Bool) : ((Space.createTag a own data auto) s).collect.2.2.Registers type := by
  unfold Space.createTag freshId
  rw [Op.collect_update_bind, Op.collect_bind]
  have numbered : { s with idsMade := s.idsMade + 1 }.Registers type := registers.of_tagging rfl
  have added := numbered.addTag a ⟨.fresh s.idsMade, own, data⟩ auto
  cases (Space.addTag a ⟨.fresh s.idsMade, own, data⟩ auto
    { s with idsMade := s.idsMade + 1 }).collect.2.1 <;> exact added

theorem removeTag (registers : s.Registers type) (a : Word) (tag : Uuid) (auto : Bool) :
    ((Space.removeTag a tag auto) s).collect.2.2.Registers type := by
  refine of_settles (removeTag_any_settles s a tag auto) (.noted ?_ fun _ => ?_)
  · exact registers.changed (fun key r held _ => .inr (Table.get?_of_undefine held)) rfl id
  · intro r present same
    obtain ⟨before, -⟩ := Table.undefine_eq_some (present.resolve_right (by rintro ⟨⟩))
    exact registers.stored _ r before same

theorem removeTags (registers : s.Registers type) (a : Word) (auto : Bool) (ids : List Uuid) :
    ((Space.removeTags a auto ids) s).collect.2.2.Registers type := by
  induction ids generalizing s with
  | nil => exact registers
  | cons id rest ih =>
    rw [Space.removeTags, Op.collect_bind, Op.collect_bind]
    exact ih (registers.removeTag a id auto)

theorem mapTags (registers : s.Registers type) {change : TagReference → TagReference}
    (kept : ∀ r, (change r).tag.type = r.tag.type) :
    { s with metadata := { s.metadata with
      tags := s.metadata.tags.mapValues fun _ r => change r } }.Registers type := by
  refine ⟨fun key r held same => ?_, registers.logged⟩
  rw [Table.get?_mapValues, Option.map_eq_some_iff] at held
  obtain ⟨old, stored, rfl⟩ := held
  exact registers.stored key old stored ((kept old).symm.trans same)

theorem recordAll (registers : s.Registers type) {items : List TagReference}
    {note : TagReference → UndoAction}
    (known : ∀ r ∈ items, (note r).OnTag type (s.metadata.tagTypes.contains type = true)) :
    ((Op.forEach (fun r => record (note r)) items) s).collect.2.2.Registers type := by
  induction items generalizing s with
  | nil => exact registers
  | cons first rest ih =>
    rw [Op.forEach, Op.collect_bind]
    have noted := UndoLog.record_holds registers.logged (known first List.mem_cons_self)
    exact ih ⟨registers.stored, noted⟩ fun r member => known r (List.mem_cons_of_mem first member)

theorem updateTag (registers : s.Registers type) (id : Uuid) (data : String) :
    ((Space.updateTag id data) s).collect.2.2.Registers type := by
  unfold Space.updateTag editMetadata
  rw [Op.collect_read_bind, Op.collect_bind, Op.collect_bind, Op.collect_bind]
  refine of_tagging (recordAll (registers.mapTags fun r => ?_) fun r member => ?_)
    (keeps_emit (fun _ _ => rfl) (fun _ _ => rfl) _ _)
  · split <;> rfl
  · have stored : r ∈ s.metadata.tags.values :=
      (List.mem_filter.1 (List.mem_filter.1 member).1).1
    obtain ⟨key, held⟩ := (Table.mem_values_iff _ r).1 stored
    -- What hung there and what hangs there now differ in their data only.
    rintro other (own | own) same <;> obtain rfl := Option.some.inj own <;>
      exact registers.stored key r held same

theorem begin (registers : s.Registers type) : ((beginUndo) s).collect.2.2.Registers type :=
  ⟨registers.stored, registers.logged.past, registers.logged.future, registers.logged.group⟩

theorem commit (registers : s.Registers type) : ((commitUndo) s).collect.2.2.Registers type :=
  ⟨registers.stored, UndoLog.commit_holds registers.logged⟩

/-- What hangs of the type agrees with the registered types, which are these, as is the log. -/
structure Agrees (type : Uuid) (types : Table Uuid TagType) (log : UndoLog) (s : Space) : Prop where
  stored : ∀ key r, s.metadata.tags.get? key = some r → r.tag.type = type →
    types.contains type = true
  types : s.metadata.tagTypes = types
  log : s.undoLog = log

theorem Agrees.redoAction {types : Table Uuid TagType} {log : UndoLog} {action : UndoAction}
    (agrees : Agrees type types log s)
    (onTag : action.OnTag type (types.contains type = true)) :
    Agrees type types log ((Space.redoAction action) s).collect.2.2 := by
  cases action with
  | tag key before state =>
    have shown : ((Space.redoAction (.tag key before state)) s).collect.2.2.tagging =
        (s.metadata.tags.alter key fun _ => state, s.metadata.tagTypes, s.undoLog) :=
      (restoreTag_settles s key state).shows fun _ => rfl
    simp only [tagging, Prod.mk.injEq] at shown
    obtain ⟨tags, types_same, log_same⟩ := shown
    refine ⟨fun query r held same => ?_, types_same.trans agrees.types, log_same.trans agrees.log⟩
    rw [tags, Table.get?_alter] at held
    split at held
    · exact onTag r (.inr held) same
    · exact agrees.stored query r held same
  | _ => exact onTag.elim

/-- Replaying actions on tags of registered types leads to such tags. -/
theorem replayed (registers : s.Registers type) {actions : List UndoAction}
    (known : ∀ action ∈ actions,
      action.OnTag type (s.metadata.tagTypes.contains type = true)) (log : UndoLog) :
    Agrees type s.metadata.tagTypes { log with replaying := true }
      (Space.replayed actions log s) :=
  Op.forEach_collect_invariant
    (fun action member _ agrees => agrees.redoAction (known action member))
    ⟨registers.stored, rfl, rfl⟩

theorem undo (registers : s.Registers type) : ((Space.undo) s).collect.2.2.Registers type := by
  by_cases refused : s.undoLog.inGroup = true ∨ s.undoLog.past = []
  · rw [undo_refused refused]
    exact registers
  · obtain ⟨entry, earlier, outside, latest⟩ := undo_admitted refused
    have known : ∀ action ∈ entry.reverse.map inverse,
        action.OnTag type (s.metadata.tagTypes.contains type = true) := by
      intro action member
      obtain ⟨done, done_member, rfl⟩ := List.mem_map.1 member
      exact (registers.logged.past entry (by simp [latest]) done
        (List.mem_reverse.1 done_member)).inverse
    obtain ⟨stored, types, log⟩ := registers.replayed known { s.undoLog with past := earlier }
    rw [collect_undo outside latest, withLog, log]
    refine ⟨types.symm ▸ stored, ?_⟩
    simp only [types]
    exact UndoLog.undone_holds registers.logged latest false

theorem redo (registers : s.Registers type) : ((Space.redo) s).collect.2.2.Registers type := by
  by_cases refused : s.undoLog.inGroup = true ∨ s.undoLog.future = []
  · rw [redo_refused refused]
    exact registers
  · obtain ⟨entry, later, outside, next⟩ := redo_admitted refused
    have known := registers.logged.future entry (by simp [next])
    obtain ⟨stored, types, log⟩ := registers.replayed known { s.undoLog with future := later }
    rw [collect_redo outside next, withLog, log]
    refine ⟨types.symm ▸ stored, ?_⟩
    simp only [types]
    exact UndoLog.redone_holds registers.logged next false

end Registers

end Space

/-- What is done to tags and their types. -/
inductive TagEdit where
  | addType (type : TagType)
  | createType (name icon : String)
  | removeType (id : Uuid)
  | add (a : Word) (tag : Tag) (auto : Bool)
  | create (a : Word) (type : Uuid) (data : String) (auto : Bool)
  | remove (a : Word) (id : Uuid) (auto : Bool)
  | removeOfType (a : Word) (type : Uuid) (auto : Bool)
  | update (id : Uuid) (data : String)
  | begin
  | commit
  | undo
  | redo
  deriving DecidableEq

namespace TagEdit

def run : TagEdit → Op Unit
  | addType type => Space.addTagType type
  | createType name icon => discard (Space.createTagType name icon)
  | removeType id => discard (Space.removeTagType id)
  | add a tag auto => discard (Space.addTag a tag auto)
  | create a type data auto => discard (Space.createTag a type data auto)
  | remove a id auto => discard (Space.removeTag a id auto)
  | removeOfType a type auto => discard (Space.removeTagsOfType a type auto)
  | update id data => discard (Space.updateTag id data)
  | begin => Space.beginUndo
  | commit => discard Space.commitUndo
  | undo => discard Space.undo
  | redo => discard Space.redo

/-- The space after some edits. -/
def runAll (edits : List TagEdit) (s : Space) : Space :=
  edits.foldl (fun s edit => ((edit.run) s).collect.2.2) s

end TagEdit

namespace Space

variable {type : Uuid} {s initial : Space}

theorem Registers.edit (registers : s.Registers type) (edit : TagEdit)
    (unknown : edit = .removeType type → s.undoLog.bringsTag type = false) :
    ((edit.run) s).collect.2.2.Registers type := by
  cases edit with
  | addType new => exact registers.addTagType new
  | createType name icon =>
    rw [TagEdit.run, Op.collect_discard]
    exact registers.createTagType name icon
  | removeType id =>
    rw [TagEdit.run, Op.collect_discard]
    exact registers.removeTagType id fun own => unknown (own ▸ rfl)
  | add a tag auto =>
    rw [TagEdit.run, Op.collect_discard]
    exact registers.addTag a tag auto
  | create a own data auto =>
    rw [TagEdit.run, Op.collect_discard]
    exact registers.createTag a own data auto
  | remove a id auto =>
    rw [TagEdit.run, Op.collect_discard]
    exact registers.removeTag a id auto
  | removeOfType a own auto =>
    rw [TagEdit.run, Op.collect_discard, removeTagsOfType, Op.collect_read_bind]
    exact registers.removeTags a auto _
  | update id data =>
    rw [TagEdit.run, Op.collect_discard]
    exact registers.updateTag id data
  | begin => exact registers.begin
  | commit =>
    rw [TagEdit.run, Op.collect_discard]
    exact registers.commit
  | undo =>
    rw [TagEdit.run, Op.collect_discard]
    exact registers.undo
  | redo =>
    rw [TagEdit.run, Op.collect_discard]
    exact registers.redo

/-- A type was taken out after some of the edits, while the log could still bring a tag of it. -/
def Forsaken (initial : Space) (edits : List TagEdit) (type : Uuid) : Prop :=
  ∃ before after, edits = before ++ .removeType type :: after ∧
    (TagEdit.runAll before initial).undoLog.bringsTag type = true

theorem registers_or_forsaken (start : initial.Registers type) (edits : List TagEdit) :
    (TagEdit.runAll edits initial).Registers type ∨ initial.Forsaken edits type := by
  induction edits using List.reverseRecOn with
  | nil => exact .inl start
  | append_singleton edits edit ih =>
    rcases ih with registers | ⟨before, after, rfl, known⟩
    · by_cases gone : edit = .removeType type ∧
          (TagEdit.runAll edits initial).undoLog.bringsTag type = true
      · exact .inr ⟨edits, [], by rw [gone.1], gone.2⟩
      · left
        rw [TagEdit.runAll, List.foldl_append, List.foldl_cons, List.foldl_nil]
        exact registers.edit edit fun removal => by
          simpa using mt (And.intro removal) gone
    · exact .inr ⟨before, after ++ [edit], by simp, known⟩

/-- Whatever is done to tags and types, taken back and done again: the type of each tag is
registered, unless it was taken out while the log could still bring a tag of it. -/
theorem tag_types_registered (tags : initial.metadata.tags = .empty)
    (log : initial.undoLog = .empty) (edits : List TagEdit) :
    ∀ key r, (TagEdit.runAll edits initial).metadata.tags.get? key = some r →
      (TagEdit.runAll edits initial).metadata.tagTypes.contains r.tag.type = true ∨
        initial.Forsaken edits r.tag.type := by
  intro key r held
  have start : initial.Registers r.tag.type := by
    refine ⟨fun key other held => ?_, ?_⟩
    · simp [tags] at held
    · rw [log]
      exact UndoLog.empty_holds
  exact (registers_or_forsaken start edits).imp_left fun registers =>
    registers.stored key r held rfl

def untaggedSpace : Space := { openedSpace with metadata := .empty }

/-- A tag is put, changed, taken back and done again, while a type without tags comes and goes. -/
def taggings : List TagEdit :=
  [.addType ⟨⟨1⟩, "Note", "n", true, .user⟩, .createType "Mark" "m", .begin,
    .add 0x10 ⟨⟨5⟩, ⟨1⟩, "first"⟩ true, .add 0x10 ⟨⟨5⟩, ⟨1⟩, "second"⟩ false, .commit,
    .update ⟨5⟩ "third", .undo, .removeType (.fresh 0), .undo, .redo, .redo]

theorem replayed_tag_registered :
    untaggedSpace.metadata.tags = .empty ∧ untaggedSpace.undoLog = .empty ∧
    (TagEdit.runAll taggings untaggedSpace).metadata.tags.get? ⟨0x10, ⟨5⟩⟩ =
      some ⟨⟨⟨5⟩, ⟨1⟩, "third"⟩, 0x10, false⟩ ∧
    (TagEdit.runAll taggings untaggedSpace).metadata.tagTypes.contains ⟨1⟩ = true := by
  have held : (TagEdit.runAll taggings untaggedSpace).metadata.tags.get? ⟨0x10, ⟨5⟩⟩ =
      some ⟨⟨⟨5⟩, ⟨1⟩, "third"⟩, 0x10, false⟩ := by
    decide +kernel
  refine ⟨rfl, rfl, held, (tag_types_registered rfl rfl taggings _ _ held).resolve_right ?_⟩
  rintro ⟨before, after, edits, -⟩
  have removal : TagEdit.removeType ⟨1⟩ ∈ taggings := by
    rw [edits]
    exact List.mem_append_right before (List.mem_cons_self ..)
  exact absurd removal (by decide)

/-- The last tag of a type is taken back, then the type is taken out. Doing the tag again does not
ask for its type. -/
theorem redone_tag_lacks_type :
    untaggedSpace.metadata = .empty ∧ untaggedSpace.undoLog = .empty ∧
    let s := TagEdit.runAll [.addType ⟨⟨1⟩, "Note", "n", true, .user⟩,
      .add 0x10 ⟨⟨5⟩, ⟨1⟩, "first"⟩ false, .undo, .removeType ⟨1⟩, .redo] untaggedSpace
    s.metadata.tags.get? ⟨0x10, ⟨5⟩⟩ = some ⟨⟨⟨5⟩, ⟨1⟩, "first"⟩, 0x10, false⟩ ∧
      s.metadata.tagTypes.contains ⟨1⟩ = false :=
  ⟨rfl, rfl, by decide +kernel⟩

end Space

end BinaryAtlas
