import BinaryAtlas.Proofs.Declaration.Declaring
import BinaryAtlas.Proofs.Declaration.Layout

/-!
The structures that a text declares, however deep in its types: their members come in the order of
the text, and each structure is laid out naturally if that fits.
-/

set_option autoImplicit false

namespace BinaryAtlas

namespace DataType

/-- A type is part of itself and of all types that are made from one it is part of. -/
inductive PartOf (part : DataType) : DataType → Prop where
  | whole : PartOf part part
  | target {type : DataType} (within : PartOf part type) (width : Word) :
      PartOf part (.pointer type width)
  | element {type : DataType} (within : PartOf part type) (count : Word) :
      PartOf part (.array type count)
  | member {m : StructMember} {members : List StructMember} (among : m ∈ members)
      (within : PartOf part m.type) (name : Option String) (width : Word) :
      PartOf part (.record name members width)
  | result {type : DataType} (within : PartOf part type) (parameters : List Parameter)
      (variadic : Bool) : PartOf part (.function type parameters variadic)
  | parameter {p : Parameter} {parameters : List Parameter} (among : p ∈ parameters)
      (within : PartOf part p.type) (result : DataType) (variadic : Bool) :
      PartOf part (.function result parameters variadic)

/-- The members of a structure follow a body in a source, and lie as natural alignment has them if
that fits. -/
structure Faithful (source : List CToken) (members : List StructMember) (width : Word) : Prop where
  order : ∃ body, .mark '\x7b' :: body ++ [.mark '\x7d'] <:+: source ∧
    NamesInOrder body (members.map (·.name))
  natural : naturalWidth (members.map (·.type)) < 0x10000000000000000 → NaturallyLaid members width

/-- Every structure in a type is as a source declares it. -/
def FaithfulThroughout (source : List CToken) (type : DataType) : Prop :=
  ∀ name members width, PartOf (.record name members width) type → Faithful source members width

/-- Every structure in a type is as a text declares it. -/
def DeclaredBy (text : String) (type : DataType) : Prop :=
  ∃ tokens, CToken.lex text = .ok tokens ∧ FaithfulThroughout (tokens.map (·.token)) type

end DataType

open DataType

variable {source : List CToken}

theorem Declared.faithful {type : DataType} (declared : Declared source type) :
    FaithfulThroughout source type := by
  induction declared with
  | void | bool | integer | float | enumeration | named => exact fun _ _ _ part => by cases part
  | pointer _ _ ih =>
    intro name members width part
    cases part with
    | target within => exact ih name members width within
  | array _ _ ih =>
    intro name members width part
    cases part with
    | element within => exact ih name members width within
  | function _ _ _ ih ih_all =>
    intro name members width part
    cases part with
    | result within => exact ih name members width within
    | parameter among within => exact ih_all _ among name members width within
  | @record fields body tag stands order _ ih =>
    obtain ⟨placed, whole, made, kept, natural⟩ := laidOut_natural tag fields
    rw [made]
    intro name members width part
    cases part with
    | whole =>
      have names : placed.map (·.name) = fields.map (·.1) := by
        rw [← kept, List.map_map]
        rfl
      exact ⟨⟨body, stands, names ▸ order⟩, natural⟩
    | @member m _ among within =>
      have field : (m.name, m.type) ∈ fields := kept ▸ List.mem_map_of_mem among
      exact ih _ field name members width within

namespace DeclarationContext

variable {context : DeclarationContext} {text : String}

theorem reads_all {α : Type} {x : Reading α} {result : α}
    (run : DeclarationReader.start text context >>= x.run' = .ok result) :
    ∃ tokens, CToken.lex text = .ok tokens ∧ ∀ sort : List CToken → α → Prop,
      (∀ source, DeclarationReader.Reads source [] x fun _ a => sort source a) →
        sort (tokens.map (·.token)) result := by
  rw [DeclarationReader.start] at run
  cases lexed : CToken.lex text with
  | error e => rw [lexed] at run; cases run
  | ok tokens =>
    refine ⟨tokens, rfl, fun sort reads => ?_⟩
    rw [lexed] at run
    replace run : Prod.fst <$> x.run ⟨tokens, text.utf8ByteSize, context, []⟩ = .ok result := run
    cases ended : x.run ⟨tokens, text.utf8ByteSize, context, []⟩ with
    | error e => rw [ended] at run; cases run
    | ok reached =>
      obtain ⟨given, later⟩ := reached
      rw [ended] at run
      obtain rfl := Except.ok.inj run
      obtain ⟨-, -, -, sorted⟩ := reads _ _ given later ended (List.suffix_refl _) (by simp)
      exact sorted

/-- In all that a text declares, every structure is made and laid out as the text has it. -/
theorem declared_structures_natural (context : DeclarationContext) (text : String) :
    (∀ type name, context.parseType text = .ok (type, name) → DeclaredBy text type) ∧
      ∀ found, context.parseTypes text = .ok found →
        ∀ t ∈ found.types ++ found.dataVariables ++ found.functions, DeclaredBy text t.2 := by
  constructor
  · intro type name parsed
    obtain ⟨tokens, lexed, reads⟩ := reads_all parsed
    have declared := reads (fun source d => Declared source d.1) fun source =>
      DeclarationReader.singleDeclaration_reads
    exact ⟨tokens, lexed, declared.faithful⟩
  · intro found parsed t member
    obtain ⟨tokens, lexed, reads⟩ := reads_all parsed
    have declared := reads (fun source f => ∀ t ∈ f.types ++ f.dataVariables ++ f.functions,
      Declared source t.2) fun source => DeclarationReader.allDeclarations_reads
    exact ⟨tokens, lexed, (declared t member).faithful⟩

/-- A name is known for a type of three bytes. -/
def oddContext : DeclarationContext := ⟨8, .insert .empty "odd" 3⟩

def packText : String :=
  "struct Pack \x7b char c, *p; struct \x7b odd o; short s[3]; \x7d q[2]; char t; \x7d box;"

def packMembers : List StructMember :=
  [.mk "c" 0 (.integer 1 true), .mk "p" 8 (.pointer (.integer 1 true) 8),
    .mk "q" 16 (.array (.record none
      [.mk "o" 0 (.named "odd" 3), .mk "s" 4 (.array (.integer 2 true) 3)] 10) 2),
    .mk "t" 36 (.integer 1 true)]

theorem pack_structures_natural :
    (∃ name, oddContext.parseType packText = .ok (.record (some "Pack") packMembers 40, name)) ∧
      (∃ found, oddContext.parseTypes packText = .ok found ∧
        found.types.map (·.2) = [.record (some "Pack") packMembers 40] ∧
        ∀ t ∈ found.types, DeclaredBy packText t.2) ∧
      DeclaredBy packText (.record (some "Pack") packMembers 40) ∧
      naturalWidth (packMembers.map (·.type)) = 40 := by
  have read : (oddContext.parseType packText).toOption.map (·.1) =
        some (.record (some "Pack") packMembers 40) ∧
      (oddContext.parseTypes packText).toOption.map (·.types.map (·.2)) =
        some [.record (some "Pack") packMembers 40] := by
    decide +kernel
  obtain ⟨single, all⟩ := read
  have natural := declared_structures_natural oddContext packText
  cases one : oddContext.parseType packText with
  | error e => rw [one] at single; cases single
  | ok d =>
    obtain ⟨type, name⟩ := d
    rw [one] at single
    obtain rfl := Option.some.inj single
    cases many : oddContext.parseTypes packText with
    | error e => rw [many] at all; cases all
    | ok found =>
      rw [many] at all
      have kept : ∀ t ∈ found.types, DeclaredBy packText t.2 := fun t member =>
        natural.2 found many t (by simp [member])
      exact ⟨⟨name, rfl⟩, ⟨found, rfl, Option.some.inj all, kept⟩, natural.1 _ name one, by decide⟩

end DeclarationContext

end BinaryAtlas
