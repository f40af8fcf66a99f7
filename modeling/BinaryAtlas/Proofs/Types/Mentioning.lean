import BinaryAtlas.Proofs.Declaration.Records
import BinaryAtlas.Proofs.TableSearch
import BinaryAtlas.Space.Types

/-!
Who mentions a name. A type mentions each name that is part of it, and those who are told when the
type of a name changes are the variables and the members of stored structures that mention it.
-/

set_option autoImplicit false

namespace BinaryAtlas

namespace DataType

/-- A reference to the name is part of the type. -/
def Involves (name : String) (type : DataType) : Prop :=
  ∃ width, PartOf (.named name width) type

mutual

theorem involves_of_mentions {name : String} :
    ∀ {type : DataType}, type.mentions name = true → type.Involves name
  | .named other width, mentioned => by
    obtain rfl : other = name := by simpa [mentions] using mentioned
    exact ⟨width, .whole⟩
  | .pointer target width, mentioned => by
    have inside : target.mentions name = true := mentioned
    obtain ⟨w, within⟩ := involves_of_mentions inside
    exact ⟨w, .target within width⟩
  | .array element count, mentioned => by
    have inside : element.mentions name = true := mentioned
    obtain ⟨w, within⟩ := involves_of_mentions inside
    exact ⟨w, .element within count⟩
  | .record tag members width, mentioned => by
    obtain ⟨m, among, w, within⟩ := involves_of_membersMention mentioned
    exact ⟨w, .member among within tag width⟩
  | .function result parameters variadic, mentioned => by
    rcases Bool.or_eq_true_iff.1 mentioned with inside | inside
    · obtain ⟨w, within⟩ := involves_of_mentions inside
      exact ⟨w, .result within parameters variadic⟩
    · obtain ⟨p, among, w, within⟩ := involves_of_parametersMention inside
      exact ⟨w, .parameter among within result variadic⟩

theorem involves_of_membersMention {name : String} :
    ∀ {members : List StructMember}, membersMention name members = true →
      ∃ m ∈ members, m.type.Involves name
  | .mk n o type :: rest, mentioned => by
    rcases Bool.or_eq_true_iff.1 mentioned with inside | inside
    · exact ⟨.mk n o type, List.mem_cons_self, involves_of_mentions inside⟩
    · obtain ⟨m, among, involved⟩ := involves_of_membersMention inside
      exact ⟨m, List.mem_cons_of_mem _ among, involved⟩

theorem involves_of_parametersMention {name : String} :
    ∀ {parameters : List Parameter}, parametersMention name parameters = true →
      ∃ p ∈ parameters, p.type.Involves name
  | .mk n type :: rest, mentioned => by
    rcases Bool.or_eq_true_iff.1 mentioned with inside | inside
    · exact ⟨.mk n type, List.mem_cons_self, involves_of_mentions inside⟩
    · obtain ⟨p, among, involved⟩ := involves_of_parametersMention inside
      exact ⟨p, List.mem_cons_of_mem _ among, involved⟩

end

theorem membersMention_of_mem {name : String} {m : StructMember} {members : List StructMember}
    (among : m ∈ members) (mentioned : m.type.mentions name = true) :
    membersMention name members = true := by
  induction members with
  | nil => cases among
  | cons first rest ih =>
    obtain ⟨n, o, type⟩ := first
    rcases List.mem_cons.1 among with rfl | later
    · exact Bool.or_eq_true_iff.2 (.inl mentioned)
    · exact Bool.or_eq_true_iff.2 (.inr (ih later))

theorem parametersMention_of_mem {name : String} {p : Parameter} {parameters : List Parameter}
    (among : p ∈ parameters) (mentioned : p.type.mentions name = true) :
    parametersMention name parameters = true := by
  induction parameters with
  | nil => cases among
  | cons first rest ih =>
    obtain ⟨n, type⟩ := first
    rcases List.mem_cons.1 among with rfl | later
    · exact Bool.or_eq_true_iff.2 (.inl mentioned)
    · exact Bool.or_eq_true_iff.2 (.inr (ih later))

theorem mentions_iff (name : String) (type : DataType) :
    type.mentions name = true ↔ type.Involves name := by
  refine ⟨involves_of_mentions, ?_⟩
  rintro ⟨width, part⟩
  induction part with
  | whole => simp [mentions]
  | target _ _ ih => exact ih
  | element _ _ ih => exact ih
  | member among _ _ _ ih => exact membersMention_of_mem among ih
  | result _ _ _ ih => exact Bool.or_eq_true_iff.2 (.inl ih)
  | parameter among _ _ _ ih =>
    exact Bool.or_eq_true_iff.2 (.inr (parametersMention_of_mem among ih))

instance (name : String) (type : DataType) : Decidable (type.Involves name) :=
  decidable_of_iff _ (mentions_iff name type)

def members : DataType → List StructMember
  | record _ members _ => members
  | _ => []

end DataType

open DataType

namespace Metadata

/-- The members of the structure stored under a name. -/
def membersOf (m : Metadata) (owner : String) : List StructMember :=
  ((m.types.get? owner).map (·.type.members)).getD []

/-- What is owed when the type of a name changed: word of each variable that mentions the name, of
each member of a stored structure that does, and of nothing else. -/
structure Owed (m : Metadata) (name : String) (events : List ChangeEvent) : Prop where
  toVariables : ∀ a, events.count (.typeReferenceChanged name a) =
    m.dataVariables.values.countP fun v => v.address = a ∧ v.type.Involves name
  toMembers : ∀ owner offset, events.count (.typeFieldReferenceChanged owner offset) =
    (m.membersOf owner).countP fun member => member.offset = offset ∧ member.type.Involves name
  others : ∀ event ∈ events, (∃ a, event = .typeReferenceChanged name a) ∨
    ∃ owner offset, event = .typeFieldReferenceChanged owner offset

end Metadata

/-- If one record alone can bring an item, only its items count. -/
theorem Table.count_flatMap {K V X : Type} [Ord K] [Std.TransOrd K] [Std.LawfulEqOrd K]
    [BEq X] [LawfulBEq X] (table : Table K V) (items : K × V → List X) (key : K) {x : X}
    (own : ∀ e, x ∈ items e → e.1 = key) :
    (table.entries.flatMap items).count x =
      (((table.get? key).map fun value => items (key, value)).getD []).count x := by
  cases held : table.get? key with
  | none =>
    refine List.count_eq_zero.2 fun inside => ?_
    obtain ⟨e, member, brings⟩ := List.mem_flatMap.1 inside
    obtain rfl := own e brings
    rw [Table.get?_eq_some_iff.2 member] at held
    cases held
  | some value =>
    obtain ⟨front, back, split⟩ := List.append_of_mem (Table.get?_eq_some_iff.1 held)
    have ascending := table.ascending
    rw [split] at ascending
    obtain ⟨-, later, across⟩ := List.pairwise_append.1 ascending
    have none_of (side : List (K × V)) (apart : ∀ e ∈ side, e.1 ≠ key) :
        (side.flatMap items).count x = 0 := by
      refine List.count_eq_zero.2 fun inside => ?_
      obtain ⟨e, member, brings⟩ := List.mem_flatMap.1 inside
      exact apart e member (own e brings)
    have before : (front.flatMap items).count x = 0 := none_of front fun e member same => by
      have less := across e member _ List.mem_cons_self
      simp [same] at less
    have behind : (back.flatMap items).count x = 0 := none_of back fun e member same => by
      have less := (List.pairwise_cons.1 later).1 e member
      simp [same] at less
    rw [split, List.flatMap_append, List.flatMap_cons, List.count_append, List.count_append, before,
      behind, Nat.zero_add]
    rfl

namespace Metadata

theorem fieldsMentioning_eq (m : Metadata) (name : String) :
    m.fieldsMentioning name = m.types.entries.flatMap fun e =>
      (e.2.type.members.filter (·.type.mentions name)).map fun member => (e.1, member.offset) := by
  unfold fieldsMentioning
  congr 1
  funext e
  obtain ⟨owner, id, type, auto⟩ := e
  cases type <;> rfl

theorem mentionEvents_owed (m : Metadata) (name : String) :
    m.Owed name (TypeLibrary.mentionEvents m name) where
  toVariables a := by
    simp only [TypeLibrary.mentionEvents, variablesMentioning, List.count, List.countP_append,
      List.countP_map, List.countP_filter]
    have others : (m.fieldsMentioning name).countP ((· == .typeReferenceChanged name a) ∘
        fun field => ChangeEvent.typeFieldReferenceChanged field.1 field.2) = 0 :=
      List.countP_eq_zero.2 fun field _ => by simp
    rw [others, Nat.add_zero]
    refine List.countP_congr fun v _ => ?_
    simp [mentions_iff]
  toMembers owner offset := by
    have counted : (TypeLibrary.mentionEvents m name).count
        (.typeFieldReferenceChanged owner offset) =
          (m.fieldsMentioning name).count (owner, offset) := by
      simp only [TypeLibrary.mentionEvents, List.count, List.countP_append, List.countP_map]
      rw [List.countP_eq_zero.2 fun a _ => by simp, Nat.zero_add]
      refine List.countP_congr fun field _ => ?_
      simp [Prod.ext_iff]
    rw [counted, fieldsMentioning_eq, Table.count_flatMap m.types _ owner]
    · unfold membersOf
      cases m.types.get? owner with
      | none => rfl
      | some r =>
        simp only [Option.map_some, Option.getD_some, List.count, List.countP_map,
          List.countP_filter]
        refine List.countP_congr fun member _ => ?_
        simp [mentions_iff]
    · intro e brings
      obtain ⟨member, -, same⟩ := List.mem_map.1 brings
      exact congrArg Prod.fst same
  others event among := by
    unfold TypeLibrary.mentionEvents at among
    rcases List.mem_append.1 among with first | second
    · obtain ⟨a, -, rfl⟩ := List.mem_map.1 first
      exact .inl ⟨a, rfl⟩
    · obtain ⟨field, -, rfl⟩ := List.mem_map.1 second
      exact .inr ⟨field.1, field.2, rfl⟩

end Metadata

end BinaryAtlas
