import BinaryAtlas.Proofs.Declaration.Bodies
import BinaryAtlas.Proofs.Declaration.Layout

/-!
A structure that is referred to by its tag is known by its width only, from which its alignment is
guessed. All lies where it would with the body written in place if the guess is right.
-/

set_option autoImplicit false

namespace BinaryAtlas

namespace DataType

/-- What of the fields decides where they lie. -/
def footprints (fields : List (String × DataType)) : List (String × Word × Word) :=
  fields.map fun f => (f.1, f.2.width, f.2.align)

/-- Where the members of a structure lie, and how wide it is. -/
def places? : DataType → Option (List (String × Word) × Word)
  | .record _ members width => some (members.map fun m => (m.name, m.offset), width)
  | _ => none

section Footprints

variable {fields fields' : List (String × DataType)}

theorem placeFrom_footprints (same : footprints fields = footprints fields') (offset : Word) :
    (placeFrom offset fields).1.map (fun m => (m.name, m.offset)) =
        (placeFrom offset fields').1.map (fun m => (m.name, m.offset)) ∧
      (placeFrom offset fields).2 = (placeFrom offset fields').2 ∧
      alignAll (placeFrom offset fields).1 = alignAll (placeFrom offset fields').1 := by
  induction fields generalizing fields' offset with
  | nil =>
    obtain rfl := List.map_eq_nil_iff.1 same.symm
    exact ⟨rfl, rfl, rfl⟩
  | cons field rest ih =>
    obtain ⟨field', rest', rfl, first, others⟩ := List.map_eq_cons_iff.1 same.symm
    obtain ⟨name, type⟩ := field
    obtain ⟨name', type'⟩ := field'
    obtain ⟨rfl, sizes⟩ := Prod.mk.inj first
    obtain ⟨width, align⟩ := Prod.mk.inj sizes
    obtain ⟨places, stop, largest⟩ := ih others.symm (roundUp offset type.align + type.width)
    simp only [placeFrom, List.map_cons, alignAll, width, align, places, stop, largest]
    exact ⟨rfl, trivial, trivial⟩

theorem laidOut_footprints (same : footprints fields = footprints fields')
    (name : Option String) : places? (laidOut name fields) = places? (laidOut name fields') ∧
      (laidOut name fields).width = (laidOut name fields').width ∧
      (laidOut name fields).align = (laidOut name fields').align := by
  obtain ⟨places, stop, largest⟩ := placeFrom_footprints same 0
  have width : (laidOut name fields).width = (laidOut name fields').width := by
    show roundUp _ (alignAll _) = roundUp _ (alignAll _)
    rw [stop, largest]
  exact ⟨congrArg some (congrArg₂ Prod.mk places width), width, largest⟩

end Footprints

/-- A reference to a type, which has only the width of it, can stand for the type in any structure
exactly if the alignment guessed from the width is that of the type. -/
theorem named_places_iff (type : DataType) (tag member : String) (name : Option String) :
    (∀ front back, places? (laidOut name (front ++ (member, .named tag type.width) :: back)) =
        places? (laidOut name (front ++ (member, type) :: back))) ↔
      type.align = alignOfWidth type.width := by
  constructor
  · intro everywhere
    -- Behind a single byte, a member is at its alignment.
    have behind (t : DataType) : roundUp 1 t.align = t.align := by
      obtain ⟨⟨k, power⟩, small⟩ := align_isAlignment t
      have exponent : k ≤ 3 := (Nat.pow_le_pow_iff_right (by decide : 1 < 2)).1 (power ▸ small)
      have align : t.align = .ofNat (2 ^ k) := by
        rw [← power]
        exact UInt64.ofNat_toNat.symm
      rw [align]
      have few : k = 0 ∨ k = 1 ∨ k = 2 ∨ k = 3 := by omega
      rcases few with rfl | rfl | rfl | rfl <;> rfl
    have there := everywhere [("", .integer 1 true)] []
    have offset (t : DataType) :
        places? (laidOut name ([("", .integer 1 true)] ++ (member, t) :: [])) =
          some ([("", 0), (member, roundUp 1 t.align)],
            (laidOut name ([("", .integer 1 true)] ++ (member, t) :: [])).width) := rfl
    rw [offset, offset, behind, behind] at there
    simp only [Option.some.injEq, Prod.mk.injEq, List.cons.injEq] at there
    exact there.1.2.1.2.symm
  · intro right front back
    refine (laidOut_footprints ?_ name).1
    rw [footprints, footprints, List.map_append, List.map_append, List.map_cons, List.map_cons]
    show _ ++ (member, type.width, alignOfWidth type.width) :: _ =
      _ ++ (member, type.width, type.align) :: _
    rw [right]

end DataType

namespace DeclarationReader

/-- A list of members is read in two contexts, and what decides where its members lie is the same
in both. -/
structure ReadAlike (c c' : DeclarationContext) (tokens : List CToken)
    (members members' : Members) : Prop where
  left : MemberList c tokens members
  right : MemberList c' tokens members'
  same : DataType.footprints members.fields = DataType.footprints members'.fields

theorem ReadAlike.of_known {c c' : DeclarationContext} {tokens : List CToken} {members : Members}
    (list : MemberList c tokens members) (proper : WellNamed tokens)
    (size : c.addressSize = c'.addressSize)
    (known : ∀ w, .word w ∈ tokens → c.known.get? w = c'.known.get? w) :
    ReadAlike c c' tokens members members := by
  refine ⟨list, ?_, rfl⟩
  have enough : 4 * (tokens ++ [CToken.mark '\x7d']).length + 8 ≤
      fuelFor (beforeMembers c' tokens).rest := by
    rw [fuelFor, beforeMembers, List.length_map]
    omega
  obtain ⟨later, run, there⟩ :=
    list.closes proper size known [] [] _ enough _ (scene_beforeMembers c' tokens)
  obtain ⟨-, types, left⟩ := Scene.mk.inj there
  rw [MemberList, run]
  exact congrArg some
    (congrArg₂ (fun tags left => (Members.mk members.fields tags, left)) types left)

end DeclarationReader

namespace DeclarationContext

open DeclarationReader DataType

def enclosing (name : String) (front : Members) (field : String × DataType) (back : Members) :
    DataType :=
  laidOut (some name) (front.fields ++ field :: back.fields)

section Tagged

variable {context : DeclarationContext} {tag name member text : String} {q r : QualifiedName}
  {body front back : List CToken} {b f k : Members}

theorem parseTypes_referring (tag_named : QualifiedName.parse tag = .ok q)
    (name_named : QualifiedName.parse name = .ok r) (free : Free member)
    (inner : MemberList context body b)
    (before : MemberList (context.grown (b.declared tag q)) front f)
    (after : MemberList ((context.grown (b.declared tag q)).grown f.tags) back k)
    (kept : tag ∉ f.tags.map (·.1.text))
    (spelled : CToken.Spells text (bodied tag body ++ .mark ';' ::
      (bodied name (front ++ (referring tag member ++ back)) ++ [.mark ';']))) :
    context.parseTypes text = .ok ⟨b.declared tag q ++ f.tags ++ k.tags ++
      [(r, enclosing name f (member, .named tag (b.type tag).width) k)], [], []⟩ := by
  have proper : WellNamed _ := fun w => CToken.read?_words spelled
  have tag_proper : WellNamed (bodied tag body) := fun w there =>
    proper w (List.mem_append_left _ there)
  have name_proper : WellNamed (bodied name (front ++ (referring tag member ++ back))) :=
    fun w there => proper w (List.mem_append_right _ (List.mem_cons_of_mem _
      (List.mem_append_left _ there)))
  have tag_text : q.text = tag := tag_proper.text_eq (by simp [bodied]) tag_named
  have width : ((context.grown (b.declared tag q)).grown f.tags).known.get? tag =
      some (b.type tag).width := by
    rw [known_grown_of_notMem kept, Members.declared, grown_append, ← tag_text]
    exact (Table.get?_insert _ _ _ _).trans (if_pos rfl)
  obtain ⟨t, runs, types⟩ := ListRuns.last ([] ++ b.tags ++ [(q, b.type tag)]) before
    (.referring free) after rfl name_proper name_named
  have closes := inner.closes (wellNamed_body tag_proper) rfl (fun _ _ => rfl) []
    (.mark ';' :: (bodied name (front ++ (referring tag member ++ back)) ++ [.mark ';']))
  rw [bodied_append] at spelled
  rw [Members.declared, grown_append] at runs
  have parsed := (ListRuns.struct tag_named tag_text closes (by simp; omega) runs).parses spelled
  rw [parsed, types, width]
  simp [Members.declared, enclosing]

theorem parseTypes_placing (tag_named : QualifiedName.parse tag = .ok q)
    (name_named : QualifiedName.parse name = .ok r) (free : Free member)
    (before : MemberList context front f) (inner : MemberList (context.grown f.tags) body b)
    (after : MemberList ((context.grown f.tags).grown (b.declared tag q)) back k)
    (spelled : CToken.Spells text (bodied name (front ++ (placing tag member body ++ back)) ++
      [.mark ';'])) :
    context.parseTypes text = .ok ⟨f.tags ++ b.declared tag q ++ k.tags ++
      [(r, enclosing name f (member, b.type tag) k)], [], []⟩ := by
  have proper : WellNamed _ := fun w => CToken.read?_words spelled
  have name_proper : WellNamed (bodied name (front ++ (placing tag member body ++ back))) :=
    fun w there => proper w (List.mem_append_left _ there)
  have tag_proper : WellNamed (bodied tag body) := fun w there =>
    wellNamed_body name_proper w (by simp [placing, there])
  obtain ⟨t, runs, types⟩ := ListRuns.last [] before (.placing free tag_named tag_proper inner)
    after rfl name_proper name_named
  rw [runs.parses spelled, types]
  simp [enclosing]

/-- A member refers to a structure that is declared before, or is declared with the body in place.
Both is accepted, and all members lie at the same places where the structure's alignment is the one
guessed from its width. -/
theorem referring_places (context : DeclarationContext) {text' : String} {b' f' k' : Members}
    (tag_named : QualifiedName.parse tag = .ok q) (name_named : QualifiedName.parse name = .ok r)
    (free : Free member)
    (inner : ReadAlike context (context.grown f'.tags) body b b')
    (before : ReadAlike (context.grown (b.declared tag q)) context front f f')
    (after : ReadAlike ((context.grown (b.declared tag q)).grown f.tags)
      ((context.grown f'.tags).grown (b'.declared tag q)) back k k')
    (kept : tag ∉ f.tags.map (·.1.text))
    (spelled : CToken.Spells text (bodied tag body ++ .mark ';' ::
      (bodied name (front ++ (referring tag member ++ back)) ++ [.mark ';'])))
    (spelled' : CToken.Spells text' (bodied name (front ++ (placing tag member body ++ back)) ++
      [.mark ';'])) :
    ∃ types types',
      context.parseTypes text = .ok ⟨types ++
        [(r, enclosing name f (member, .named tag (b.type tag).width) k)], [], []⟩ ∧
      context.parseTypes text' = .ok ⟨types' ++
        [(r, enclosing name f' (member, b'.type tag) k')], [], []⟩ ∧
      ((b.type tag).align = alignOfWidth (b.type tag).width →
        places? (enclosing name f (member, .named tag (b.type tag).width) k) =
          places? (enclosing name f' (member, b'.type tag) k')) := by
  have referred := parseTypes_referring tag_named name_named free inner.left before.left after.left
    kept spelled
  have placed := parseTypes_placing tag_named name_named free before.right inner.right after.right
    spelled'
  refine ⟨_, _, referred, placed, fun natural => ?_⟩
  have guessed := (named_places_iff (b.type tag) tag member (some name)).2 natural
  refine (guessed f.fields k.fields).trans (laidOut_footprints ?_ (some name)).1
  obtain ⟨-, width, align⟩ := laidOut_footprints inner.same (some tag)
  have before_same := before.same
  have after_same := after.same
  rw [footprints, footprints] at before_same after_same ⊢
  rw [List.map_append, List.map_append, List.map_cons, List.map_cons, before_same, after_same,
    Members.type, Members.type, width, align]

end Tagged

def nameOf (word : String) (proper : word ≠ "") : QualifiedName :=
  ⟨[word], List.cons_ne_nil _ _, fun _ member => List.mem_singleton.1 member ▸ proper⟩

def treeBody : List CToken :=
  [.word "long", .word "a", .mark ';', .word "char", .word "b", .mark ';']

def treeMembers : Members := ⟨[("a", .integer 8 true), ("b", .integer 1 true)], []⟩

def forestFront : List CToken :=
  [.word "struct", .word "In", .mark '\x7b', .word "short", .word "s", .mark ';', .mark '\x7d',
    .word "in", .mark ';', .word "struct", .word "Tree", .mark '*', .word "up", .mark ';']

def frontMembers (known : Word) : Members :=
  let type := laidOut (some "In") [("s", .integer 2 true)]
  ⟨[("in", type), ("up", .pointer (.named "Tree" known) 8)], [(nameOf "In" (by decide), type)]⟩

def forestBack : List CToken := [.word "struct", .word "In", .word "q", .mark ';']

def backMembers : Members := ⟨[("q", .named "In" 2)], []⟩

def forestText : String :=
  "struct Tree \x7b long a; char b; \x7d;\nstruct Forest \x7b struct In \x7b short s; \x7d in; " ++
    "struct Tree *up; struct Tree root; struct In q; \x7d;"

def forestTextInPlace : String :=
  "struct Forest \x7b struct In \x7b short s; \x7d in; struct Tree *up; " ++
    "struct Tree \x7b long a; char b; \x7d root; struct In q; \x7d;"

theorem forest_places :
    let context : DeclarationContext := ⟨8, .empty⟩
    ∃ types types' outer outer',
      context.parseTypes forestText = .ok ⟨types ++ [(nameOf "Forest" (by decide), outer)], [], []⟩ ∧
      context.parseTypes forestTextInPlace =
        .ok ⟨types' ++ [(nameOf "Forest" (by decide), outer')], [], []⟩ ∧
      places? outer = places? outer' ∧
      places? outer = some ([("in", 0), ("up", 8), ("root", 16), ("q", 32)], 40) := by
  intro context
  let tree := treeMembers.declared "Tree" (nameOf "Tree" (by decide))
  have read : CToken.Spells forestText (bodied "Tree" treeBody ++ .mark ';' :: (bodied "Forest"
        (forestFront ++ (referring "Tree" "root" ++ forestBack)) ++ [.mark ';'])) ∧
      CToken.Spells forestTextInPlace (bodied "Forest"
        (forestFront ++ (placing "Tree" "root" treeBody ++ forestBack)) ++ [.mark ';']) ∧
      (QualifiedName.parse "Tree").toOption = some (nameOf "Tree" (by decide)) ∧
      (QualifiedName.parse "Forest").toOption = some (nameOf "Forest" (by decide)) ∧
      MemberList context treeBody treeMembers := by
    decide +kernel
  obtain ⟨spelled, spelled', tree_named, forest_named, list⟩ := read
  have inner : ReadAlike context (context.grown (frontMembers 0).tags) treeBody treeMembers
      treeMembers := by
    have proper : WellNamed (bodied "Tree" treeBody) := fun w there =>
      CToken.read?_words spelled (List.mem_append_left _ there)
    refine .of_known list (wellNamed_body proper) rfl fun w there => ?_
    refine (known_grown_of_notMem fun own => ?_).symm
    obtain rfl := List.mem_singleton.1 own
    revert there
    decide
  -- A pointer to the tree is in front of it, where the tree is not known without its body.
  have before : ReadAlike (context.grown tree) context forestFront (frontMembers 16)
      (frontMembers 0) :=
    ⟨by decide +kernel, by decide +kernel, by decide⟩
  have after : ReadAlike ((context.grown tree).grown (frontMembers 16).tags)
      ((context.grown (frontMembers 0).tags).grown tree) forestBack backMembers backMembers :=
    ⟨by decide +kernel, by decide +kernel, rfl⟩
  obtain ⟨types, types', referred, placed, same⟩ := referring_places context
    (CToken.eq_ok_of_toOption tree_named) (CToken.eq_ok_of_toOption forest_named)
    (show Free "root" by decide) inner before after (by decide) spelled spelled'
  exact ⟨types, types', _, _, referred, placed, same (by decide), by decide⟩

/-- A member that refers to a structure of three bytes moves from the place it has with the body. -/
theorem reference_moves_member :
    let context : DeclarationContext := ⟨8, .empty⟩
    let inner := laidOut (some "T") [("a", .array (.integer 1 true) 3)]
    (context.parseTypes "struct T \x7b char a[3]; \x7d; struct U \x7b char c; struct T m; \x7d;" =
      .ok ⟨[(nameOf "T" (by decide), inner), (nameOf "U" (by decide), .record (some "U")
        [.mk "c" 0 (.integer 1 true), .mk "m" 2 (.named "T" 3)] 6)], [], []⟩) ∧
      context.parseTypes "struct U \x7b char c; struct T \x7b char a[3]; \x7d m; \x7d;" =
        .ok ⟨[(nameOf "T" (by decide), inner), (nameOf "U" (by decide), .record (some "U")
          [.mk "c" 0 (.integer 1 true), .mk "m" 1 inner] 4)], [], []⟩ := by
  intro context inner
  have parsed {text : String} {types : List (QualifiedName × DataType)}
      (read : (context.parseTypes text).toOption.map (fun found =>
        (found.types, found.dataVariables, found.functions)) = some (types, [], [])) :
      context.parseTypes text = .ok ⟨types, [], []⟩ := by
    obtain ⟨⟨_, _, _⟩, found, same⟩ := Option.map_eq_some_iff.1 read
    obtain ⟨rfl, rfl, rfl⟩ := same
    exact CToken.eq_ok_of_toOption found
  exact ⟨parsed (by decide +kernel), parsed (by decide +kernel)⟩

end DeclarationContext

end BinaryAtlas
