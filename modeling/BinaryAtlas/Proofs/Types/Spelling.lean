import BinaryAtlas.Proofs.Declaration.Lexing
import BinaryAtlas.Proofs.Types.Telling

/-!
The spelling of names of types. A definition stores its type under the text of the name as it was
read, without the blanks around its components; look-ups, removals, renamings and references take
names as they are written. So a type is found under the name it was given if and only if no blanks
stand around the components of that name.
-/

set_option autoImplicit false

namespace BinaryAtlas

theorem trim_sublist (cs : List Char) : (trim cs).Sublist cs := by
  have right : (trimRight (trimLeft cs)).Sublist (trimLeft cs) := by
    simpa [trimRight] using (List.dropWhile_sublist (l := (trimLeft cs).reverse) isBlank).reverse
  exact right.trans (List.dropWhile_sublist isBlank)

section Shortening

variable {α : Type} {shorten : List α → List α} (shorter : ∀ piece, (shorten piece).Sublist piece)
  (separator : List α)
include shorter

theorem length_intercalate_map_le (pieces : List (List α)) :
    (separator.intercalate (pieces.map shorten)).length ≤
      (separator.intercalate pieces).length := by
  induction pieces with
  | nil => exact Nat.le_refl _
  | cons piece rest ih =>
    have first := (shorter piece).length_le
    cases rest with
    | nil => simpa using first
    | cons next rest =>
      simp only [List.map_cons, List.intercalate_cons_cons, List.length_append] at ih ⊢
      omega

/-- A whole keeps its length only if all its pieces do. -/
theorem intercalate_map_eq_iff (pieces : List (List α)) :
    separator.intercalate (pieces.map shorten) = separator.intercalate pieces ↔
      ∀ piece ∈ pieces, shorten piece = piece := by
  refine ⟨fun same => ?_, fun kept => by rw [List.map_congr_left kept, List.map_id']⟩
  induction pieces with
  | nil => exact List.forall_mem_nil _
  | cons piece rest ih =>
    have first := (shorter piece).length_le
    cases rest with
    | nil => simpa using same
    | cons next rest =>
      have later := length_intercalate_map_le shorter separator (next :: rest)
      -- No piece grows, so all keep their lengths if the whole does.
      have lengths := congrArg List.length same
      simp only [List.map_cons, List.intercalate_cons_cons, List.length_append]
        at later lengths same
      have kept : shorten piece = piece := (shorter piece).eq_of_length (by omega)
      rw [kept, List.append_cancel_left_eq] at same
      exact List.forall_mem_cons.2 ⟨kept, ih same⟩

end Shortening

namespace QualifiedName

/-- No blanks stand around the components of a name. -/
def Unpadded (name : String) : Prop := ∀ piece ∈ pieces name.toList, trim piece = piece

instance (name : String) : Decidable (Unpadded name) :=
  inferInstanceAs (Decidable (∀ piece ∈ pieces name.toList, trim piece = piece))

theorem text_eq_iff {name : String} {qualified : QualifiedName}
    (parsed : parse name = .ok qualified) : qualified.text = name ↔ Unpadded name := by
  have components : qualified.components =
      (pieces name.toList).map fun piece => String.ofList (trim piece) := by
    unfold parse ofComponents at parsed
    split at parsed
    · rw [← Except.ok.inj parsed]
    · cases parsed
  have spelled : qualified.text.toList =
      [':', ':'].intercalate ((pieces name.toList).map trim) := by
    rw [text, String.toList_intercalate, components, List.map_map]
    congr 1
    exact List.map_congr_left fun piece _ => String.toList_ofList
  have whole := intercalate_map_eq_iff trim_sublist [':', ':'] (pieces name.toList)
  rw [intercalate_pieces] at whole
  rw [← String.toList_inj, spelled]
  exact whole

end QualifiedName

namespace Space

open QualifiedName

variable {s : Space} {name : String} {type : DataType} {id : Uuid}

/-- A user's type is stored under the text of its name. -/
theorem defined_type_stored
    (defined : ((defineType name type false) s).collect.2.1 = .ok id) :
    ∃ qualified, parse name = .ok qualified ∧
      ((defineType name type false) s).collect.2.2.metadata.types =
        s.metadata.types.alter qualified.text fun _ => some ⟨id, type, false⟩ := by
  cases parsed : parse name with
  | error e =>
    rw [(defineType_refused parsed s).1] at defined
    cases defined
  | ok qualified =>
    have settles := defineType_settles s type parsed rfl
    obtain rfl : s.typeIdFor qualified.text = id :=
      Except.ok.inj (settles.1.symm.trans defined)
    exact ⟨qualified, rfl, settles.types⟩

/-- A name leads to a type if looking it up, removing it and renaming it get at the type's record,
and those who mention the name are told when it goes. -/
structure LeadsTo (s : Space) (name : String) (type : TypeRecord) : Prop where
  id : s.typeId? name = some type.id
  auto : s.isTypeAuto name = type.auto
  removes : ((undefineType name type.auto) s).collect.2.1 = true ∧
    ((undefineType name type.auto) s).collect.2.2.metadata.types = s.metadata.types.erase name
  renames : ∀ new qualified, parse new = .ok qualified →
    s.metadata.types.get? qualified.text = none →
    ((renameType name new) s).collect.2.1 = .ok true ∧
      ((renameType name new) s).collect.2.2.metadata.types =
        (s.metadata.types.erase name).insert qualified.text type
  mentions : ∀ a, ((undefineType name type.auto).scenes s).countP
      (·.1 = .typeReferenceChanged name a) =
    s.metadata.dataVariables.values.countP fun v => v.address = a ∧ v.type.Involves name

theorem leadsTo_of_held {type : TypeRecord} (held : s.metadata.types.get? name = some type)
    (user : type.auto = false) : s.LeadsTo name type where
  id := by rw [typeId?, held]; rfl
  auto := by rw [isTypeAuto, held]; rfl
  removes := by
    have settles := undefineType_settles s name
    rw [user]
    refine ⟨settles.1.trans (by rw [held]; rfl), settles.types.trans ?_⟩
    rfl
  renames new qualified parsed free := by
    have free : s.metadata.types.contains qualified.text = false := by
      simpa [Table.contains] using free
    have settles := renameType_settles s parsed free held user
    exact ⟨settles.1, settles.types⟩
  mentions a := by
    have settles := undefineType_settles s name
    have last : ((undefineType name false) s).collect.2.2.metadata =
        { s.metadata with types := s.metadata.types.alter name fun _ => none } :=
      settles.shows fun _ => rfl
    have told : (undefineType name false).scenes s = announcement _ name type.type :=
      (undefineType_announced held name false).resolve_left (by
        rw [Op.shown, settles.types]
        simp [noted, Table.get?_alter])
    rw [user, told, countP_announcement, Op.shown, last]

/-- A user's type is found under the name it was given if no blanks stand around the components of
that name. Otherwise the name leads where it led before, and who mentions it does not mention the
name under which the type is stored. -/
theorem defined_type_found
    (defined : ((defineType name type false) s).collect.2.1 = .ok id) :
    let after := ((defineType name type false) s).collect.2.2
    ∃ qualified, parse name = .ok qualified ∧
      after.metadata.types.get? qualified.text = some ⟨id, type, false⟩ ∧
      (Unpadded name → qualified.text = name ∧ after.LeadsTo name ⟨id, type, false⟩) ∧
      (¬ Unpadded name → after.metadata.types.get? name = s.metadata.types.get? name ∧
        ∀ width, ¬ (DataType.named name width).Involves qualified.text) := by
  intro after
  obtain ⟨qualified, parsed, types⟩ := defined_type_stored defined
  have spelling := text_eq_iff parsed
  have stored : after.metadata.types.get? qualified.text = some ⟨id, type, false⟩ := by
    rw [types, Table.get?_alter, if_pos rfl]
  refine ⟨qualified, parsed, stored, fun unpadded => ?_, fun padded => ?_⟩
  · have same := spelling.2 unpadded
    rw [same] at stored
    exact ⟨same, leadsTo_of_held stored rfl⟩
  · have apart : name ≠ qualified.text := fun same => padded (spelling.1 same.symm)
    refine ⟨by rw [types, Table.get?_alter, if_neg apart], ?_⟩
    rintro width ⟨other, part⟩
    cases part
    exact apart rfl

theorem scoped_name_found :
    ((defineType "a::b c" .bool false) emptySpace).collect.2.1 = .ok (.fresh 0) ∧
      (((defineType "a::b c" .bool false) emptySpace).collect.2.2).LeadsTo "a::b c"
        ⟨.fresh 0, .bool, false⟩ := by
  have defined : ((defineType "a::b c" .bool false) emptySpace).collect.2.1 =
      .ok (.fresh 0) := by decide +kernel
  obtain ⟨_, -, -, found, -⟩ := defined_type_found defined
  exact ⟨defined, (found (by decide +kernel)).2⟩

/-- The type is stored under `a`, and the name it was given leads nowhere. A colon before the blanks
makes a name under which no user can define a type again. -/
theorem padded_name_lost :
    let padded := ((defineType " a" .bool false) emptySpace).collect
    let broken := ((defineType "a : ::b" .bool false) emptySpace).collect
    emptySpace.Reachable ∧
      (padded.2.1 = .ok (.fresh 0) ∧ padded.2.2.typeId? " a" = none ∧
        padded.2.2.typeId? "a" = some (.fresh 0)) ∧
      broken.2.1 = .ok (.fresh 0) ∧ broken.2.2.typeId? "a :::b" = some (.fresh 0) ∧
        ((defineType "a :::b" .void false) broken.2.2).collect.2.1 = .ok (.fresh 1) :=
  ⟨emptySpace_reachable, by decide +kernel⟩

end Space

end BinaryAtlas
