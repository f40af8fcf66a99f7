import BinaryAtlas.Proofs.Declaration.Reading

/-!
Whatever the reader of declarations accepts, it gives only types that the tokens it has read can
declare.
-/

set_option autoImplicit false

namespace BinaryAtlas

namespace DeclarationReader

open DataType

variable {source seen : List CToken}

theorem declared_pointers (addressSize : Word) {type : DataType} (declared : Declared source type)
    (n : Nat) : Declared source (pointers addressSize n type) := by
  induction n generalizing type with
  | zero => exact declared
  | succ n ih => exact ih (.pointer declared addressSize)

theorem declared_arrays {type : DataType} (declared : Declared source type) (dims : List Word) :
    Declared source (dims.foldr (fun count t => .array t count) type) := by
  induction dims with
  | nil => exact declared
  | cons count rest ih => exact .array ih count

theorem declared_standardType {name : String} {addressSize : Word} {type : DataType}
    (standard : standardType? name addressSize = some type) : Declared source type := by
  unfold standardType? at standard
  split at standard
  all_goals first | exact Option.some.inj standard ▸ .integer _ _ | cases standard

/-- What the words so far name, if they name a type, can be declared. -/
def NamesDeclared (source : List CToken) (s : Specifiers) : Prop :=
  ∀ type, s.base = some (.other type) → Declared source type

theorem unnamed : NamesDeclared source .none := fun _ base => by cases base

theorem declared_integer {s : Specifiers} {addressSize : Word} {type : DataType}
    (made : s.integer? addressSize = some type) : Declared source type := by
  obtain ⟨w, -, rfl⟩ := Option.map_eq_some_iff.1 made
  exact .integer w _

theorem declared_type {s : Specifiers} (named : NamesDeclared source s) {addressSize : Word}
    {type : DataType} (made : s.type addressSize = .ok type) : Declared source type := by
  unfold Specifiers.type at made
  dsimp only at made
  split at made
  case h_1 type base =>
    split at made
    · cases made
    · exact Except.ok.inj made ▸ named type base
  all_goals
    repeat' split at made
    all_goals cases made
    all_goals
      first
      | exact .void
      | exact .bool
      | exact .float _
      | exact .integer _ _
      | exact declared_integer (by assumption)

theorem ofWord?_ne_other {word : String} {base : BaseType}
    (known : BaseType.ofWord? word = some base) (type : DataType) : base ≠ .other type := by
  unfold BaseType.ofWord? at known
  split at known
  all_goals cases known
  all_goals exact BaseType.noConfusion

/-- A step that goes on with further words has only named what can be declared. -/
def StepDeclared (source : List CToken) : SpecifierStep → Prop
  | .take s => NamesDeclared source s
  | _ => True

theorem StepDeclared.choose {c : Prop} [Decidable c] {first second : SpecifierStep}
    (left : StepDeclared source first) (right : StepDeclared source second) :
    StepDeclared source (if c then first else second) :=
  iteInduction (motive := StepDeclared source) (fun _ => left) fun _ => right

theorem specifierStep_declared (allowTypedef : Bool) (context : DeclarationContext)
    {s : Specifiers} (word : String) (named : NamesDeclared source s) :
    StepDeclared source (specifierStep allowTypedef context s word) := by
  unfold specifierStep
  -- The words that only modify a type leave what is named as it is.
  refine .choose (.choose named trivial) <| .choose named <| .choose named <| .choose named <|
    .choose named <| .choose named <| .choose trivial <|
    .choose (.choose trivial (.choose trivial trivial)) ?_
  split
  next base known =>
    refine .choose trivial fun type same => ?_
    exact absurd (Option.some.inj same) (ofWord?_ne_other known type)
  next =>
    refine .choose (fun type same => ?_) trivial
    obtain rfl := BaseType.other.inj (Option.some.inj same)
    cases standard : standardType? word context.addressSize with
    | none => exact .named _ _
    | some type => exact declared_standardType standard

theorem finishSpecifiers_reads {s : Specifiers} (named : NamesDeclared source s) :
    Reads source seen (finishSpecifiers s) fun _ t => Declared source t.1 := by
  refine .get fun r => ?_
  split
  next made => exact .pure (declared_type named made)
  next => exact .fail

theorem namedType_reads (name : String) :
    Reads source seen (namedType name) fun _ t => Declared source t :=
  .get fun _ => .pure (.named _ _)

theorem stars_reads (fuel : Nat) : Reads source seen (stars fuel) fun _ _ => True := by
  induction fuel generalizing seen with
  | zero => exact .pure trivial
  | succ fuel ih =>
    rw [stars]
    refine .eat (.skipIgnored fun now => ?_) (.pure trivial)
    exact .bind ih fun _ _ _ => .pure trivial

theorem dimension_reads : Reads source seen dimension fun _ _ => True := by
  refine .eat (.pure trivial) (.number fun now n => .expect ?_)
  split
  · exact .fail
  · exact .pure trivial

theorem enumerators_reads (fuel : Nat) (next : Int) :
    Reads source seen (enumerators fuel next) fun _ _ => True := by
  induction fuel generalizing seen next with
  | zero => exact .throw
  | succ fuel ih =>
    rw [enumerators]
    refine .eat (.pure trivial) (.word (fun name => ?_) .fail)
    refine .eat (.number fun now value => ?_) (.given ?_)
    all_goals
      refine .eat ?_ (.expect (.pure trivial))
      exact .bind (ih _) fun _ _ _ => .pure trivial

theorem enumSpecifier_reads (fuel : Nat) :
    Reads source seen (enumSpecifier fuel) fun _ t => Declared source t := by
  refine .word (fun name => .eat ?_ (namedType_reads name)) (.eat ?_ .fail)
  all_goals
    refine .bind (enumerators_reads fuel 0) fun _ members _ => ?_
    exact .bind (.defineTag (.enumeration _ _ _) _) fun _ _ _ => .pure (.enumeration _ _ _)

/-- With some fuel every reader of a part of a declaration gives what the source can declare. -/
structure Sound (source : List CToken) (fuel : Nat) : Prop where
  specifiers : ∀ (allowTypedef : Bool) (s : Specifiers), NamesDeclared source s →
    Reads source [] (specifiers allowTypedef fuel s) fun _ t => Declared source t.1
  structSpecifier : Reads source [] (structSpecifier fuel) fun _ t => Declared source t
  structBody : Reads source [] (structBody fuel) fun taken fields =>
    (∃ body, taken = body ++ [.mark '\x7d'] ∧ NamesInOrder body (fields.map (·.1))) ∧
      ∀ f ∈ fields, Declared source f.2
  memberNames : ∀ base, Declared source base →
    Reads source [] (memberNames base fuel) fun taken fields =>
      fields ≠ [] ∧ NamesInOrder (taken ++ [.mark ';']) (fields.map (·.1)) ∧
        ∀ f ∈ fields, Declared source f.2
  declarator : ∀ base, Declared source base →
    Reads source [] (declarator base fuel) fun taken d =>
      Declared source d.1 ∧ ∀ name, d.2 = some name → .word name ∈ taken
  suffixes : ∀ found : Option (List Parameter × Bool),
    (∀ p ∈ found, ∀ q ∈ p.1, Declared source q.type) →
      Reads source [] (suffixes found fuel) fun _ s =>
        ∀ p ∈ s.1, ∀ q ∈ p.1, Declared source q.type
  dimensions : Reads source [] (dimensions fuel) fun _ _ => True
  parameters : Reads source [] (parameters fuel) fun _ ps => ∀ q ∈ ps.1, Declared source q.type
  parameterList : Reads source [] (parameterList fuel) fun _ ps =>
    ∀ q ∈ ps.1, Declared source q.type

namespace Sound

variable {fuel : Nat}

theorem specifiers_next (sound : Sound source fuel) (allowTypedef : Bool) {s : Specifiers}
    (named : NamesDeclared source s) :
    Reads source [] (DeclarationReader.specifiers allowTypedef (fuel + 1) s) fun _ t =>
      Declared source t.1 := by
  have after_body {type : DataType} (declared : Declared source type) (now : List CToken) :
      Reads source now (DeclarationReader.specifiers allowTypedef fuel
        { s with base := some (.other type) }) fun _ t => Declared source t.1 := by
    refine (sound.specifiers _ _ fun other base => ?_).anywhere now
    exact BaseType.other.inj (Option.some.inj base) ▸ declared
  rw [DeclarationReader.specifiers]
  refine .get fun r => ?_
  split
  next word _ =>
    refine .get fun r => ?_
    have taken := specifierStep_declared allowTypedef r.context word named
    split
    next s step =>
      rw [step] at taken
      exact .drop fun now => (sound.specifiers _ s taken).anywhere now
    next =>
      exact .drop fun _ => .call sound.structSpecifier fun _ _ declared => after_body declared _
    next =>
      exact .drop fun _ => .bind (enumSpecifier_reads fuel) fun now _ declared =>
        after_body declared now
    next => exact finishSpecifiers_reads named
    next => exact .fail
  next => exact finishSpecifiers_reads named

theorem structSpecifier_next (sound : Sound source fuel) :
    Reads source [] (DeclarationReader.structSpecifier (fuel + 1)) fun _ t =>
      Declared source t := by
  rw [DeclarationReader.structSpecifier]
  refine .word (fun name => .eat ?_ (namedType_reads name)) (.eat ?_ .fail)
  all_goals
    -- The whole body is seen by now, from brace to brace.
    refine .call sound.structBody fun taken fields read => .standing fun seen => ?_
    obtain ⟨⟨body, rfl, order⟩, all⟩ := read
    have stands : .mark '\x7b' :: body ++ [.mark '\x7d'] <:+: source := by
      refine List.IsInfix.trans ?_ seen
      rw [List.append_assoc]
      exact (List.suffix_append _ _).isInfix
    have declared (tag : Option String) : Declared source (laidOut tag fields) :=
      .record tag stands order all
    exact .bind (.defineTag (declared _) _) fun _ _ _ => .pure (declared _)

theorem structBody_next (sound : Sound source fuel) :
    Reads source [] (DeclarationReader.structBody (fuel + 1)) fun taken fields =>
      (∃ body, taken = body ++ [.mark '\x7d'] ∧ NamesInOrder body (fields.map (·.1))) ∧
        ∀ f ∈ fields, Declared source f.2 := by
  rw [DeclarationReader.structBody]
  refine .eat (.pure ⟨⟨[], rfl, .nil⟩, List.forall_mem_nil _⟩) (.atEnd fun ended => ?_)
  cases ended with
  | true => exact .fail
  | false =>
    refine .call (sound.specifiers false .none unnamed) fun words t declared => ?_
    refine .call (sound.memberNames t.1 declared) fun taken members read => .expect ?_
    refine .call sound.structBody fun rest others left => .pure ?_
    obtain ⟨nonempty, order, all⟩ := read
    obtain ⟨⟨body, rfl, order_left⟩, all_left⟩ := left
    -- What says the type of the first member is part of its stretch.
    refine ⟨⟨words ++ (taken ++ [.mark ';']) ++ body, by simp, ?_⟩, ?_⟩
    · obtain ⟨first, more, rfl⟩ := List.exists_cons_of_ne_nil nonempty
      rw [List.map_append]
      exact (order.behind words).append order_left
    · exact List.forall_mem_append.2 ⟨all, all_left⟩

theorem memberNames_next (sound : Sound source fuel) {base : DataType}
    (declared : Declared source base) :
    Reads source [] (DeclarationReader.memberNames base (fuel + 1)) fun taken fields =>
      fields ≠ [] ∧ NamesInOrder (taken ++ [.mark ';']) (fields.map (·.1)) ∧
        ∀ f ∈ fields, Declared source f.2 := by
  rw [DeclarationReader.memberNames]
  refine .call (sound.declarator base declared) fun taken d read => ?_
  obtain ⟨type, _ | name⟩ := d
  · exact .fail
  obtain ⟨made, named⟩ := read
  obtain ⟨front, back, rfl⟩ := List.append_of_mem (named name rfl)
  refine .eat (.call (sound.memberNames base declared) fun rest others left => .pure ?_) (.pure ?_)
  · obtain ⟨-, order, all⟩ := left
    refine ⟨List.cons_ne_nil _ _, ?_, List.forall_mem_cons.2 ⟨made, all⟩⟩
    have first : NamesInOrder (front ++ .word name :: back ++ .mark ',' :: (rest ++ [.mark ';']))
        (name :: others.map (·.1)) := .cons (.inl rfl) order
    simpa using first
  · exact ⟨List.cons_ne_nil _ _, .cons (.inr rfl) .nil, List.forall_mem_singleton.2 made⟩

theorem declarator_next (sound : Sound source fuel) {base : DataType}
    (declared : Declared source base) :
    Reads source [] (DeclarationReader.declarator base (fuel + 1)) fun taken d =>
      Declared source d.1 ∧ ∀ name, d.2 = some name → .word name ∈ taken := by
  rw [DeclarationReader.declarator]
  refine .get fun r => .bind (stars_reads fuel) fun _ n _ => .get fun _ => .get fun _ => ?_
  have inner := declared_pointers r.context.addressSize declared n
  split
  case' isTrue =>
    refine .drop fun _ => .bind (stars_reads fuel) fun _ outer _ => ?_
    refine .word (fun name => .expect (.given ?_)) (.expect (.given ?_))
  case' isFalse => refine .word (fun name => .given ?_) (.given ?_)
  -- Whether there is a name and whether it stands in parentheses, the same goes on behind it.
  all_goals
    refine .call (sound.suffixes none (by simp)) fun _ s all => ?_
    obtain ⟨found, dims⟩ := s
    refine .get fun r => ?_
    split
    · exact .fail
    · refine .pure ⟨declared_pointers _ (declared_arrays ?_ dims) _, by simp⟩
      cases found with
      | none => exact inner
      | some ps => exact .function inner (all ps rfl) ps.2

theorem suffixes_next (sound : Sound source fuel) {found : Option (List Parameter × Bool)}
    (declared : ∀ p ∈ found, ∀ q ∈ p.1, Declared source q.type) :
    Reads source [] (DeclarationReader.suffixes found (fuel + 1)) fun _ s =>
      ∀ p ∈ s.1, ∀ q ∈ p.1, Declared source q.type := by
  rw [DeclarationReader.suffixes]
  have dimensioned (now : List CToken) : Reads source now (do
      let first ← dimension
      let others ← DeclarationReader.dimensions fuel
      pure (found, first :: others)) fun _ s => ∀ p ∈ s.1, ∀ q ∈ p.1, Declared source q.type :=
    .bind dimension_reads fun _ _ _ => .call sound.dimensions fun _ _ _ => .pure declared
  cases found with
  | some ps => exact .eat (dimensioned _) (.pure declared)
  | none =>
    refine .eat (dimensioned _) (.eat (.call sound.parameters fun taken ps all => ?_) ?_)
    · exact (sound.suffixes (some ps) fun p same => Option.some.inj same ▸ all).anywhere _
    · exact .pure declared

theorem dimensions_next (sound : Sound source fuel) :
    Reads source [] (DeclarationReader.dimensions (fuel + 1)) fun _ _ => True := by
  rw [DeclarationReader.dimensions]
  refine .eat (.bind dimension_reads fun _ _ _ => ?_) (.pure trivial)
  exact .call sound.dimensions fun _ _ _ => .pure trivial

theorem parameters_next (sound : Sound source fuel) :
    Reads source [] (DeclarationReader.parameters (fuel + 1)) fun _ ps =>
      ∀ q ∈ ps.1, Declared source q.type := by
  rw [DeclarationReader.parameters]
  refine .eat (.pure (List.forall_mem_nil _)) (.get fun r => .get fun r => ?_)
  split
  · exact .drop fun _ => .pure (List.forall_mem_nil _)
  · exact sound.parameterList

theorem parameterList_next (sound : Sound source fuel) :
    Reads source [] (DeclarationReader.parameterList (fuel + 1)) fun _ ps =>
      ∀ q ∈ ps.1, Declared source q.type := by
  rw [DeclarationReader.parameterList]
  refine .get fun r => ?_
  split
  · exact .drop fun _ => .expect (.pure (List.forall_mem_nil _))
  · refine .call (sound.specifiers false .none unnamed) fun _ base declared => ?_
    refine .call (sound.declarator base.1 declared) fun _ d read => ?_
    refine .eat (.pure ?_) (.expect (.call sound.parameterList fun _ others all => .pure ?_))
    · exact List.forall_mem_singleton.2 read.1
    · exact List.forall_mem_cons.2 ⟨read.1, all⟩

end Sound

theorem sound (source : List CToken) (fuel : Nat) : Sound source fuel := by
  induction fuel with
  | zero => constructor <;> intros <;> exact .throw
  | succ fuel ih =>
    exact {
      specifiers := fun allowTypedef _ named => ih.specifiers_next allowTypedef named
      structSpecifier := ih.structSpecifier_next
      structBody := ih.structBody_next
      memberNames := fun _ declared => ih.memberNames_next declared
      declarator := fun _ declared => ih.declarator_next declared
      suffixes := fun _ declared => ih.suffixes_next declared
      dimensions := ih.dimensions_next
      parameters := ih.parameters_next
      parameterList := ih.parameterList_next }

theorem singleDeclaration_reads :
    Reads source [] singleDeclaration fun _ d => Declared source d.1 := by
  refine .get fun r => ?_
  refine .call ((sound source _).specifiers false .none unnamed) fun _ base known => ?_
  refine .call ((sound source _).declarator base.1 known) fun _ d read => ?_
  obtain ⟨type, name⟩ := d
  refine .discard (.eats ';') fun now => .atEnd fun ended => ?_
  cases ended with
  | false => exact .fail
  | true =>
    rw [if_neg (by decide)]
    split
    · exact .fail
    · exact .qualify fun q => .pure read.1

/-- What is found so far can be declared; the types are noted by the reader alone. -/
def AllDeclared (source : List CToken) (found : Declarations) : Prop :=
  ∀ t ∈ found.dataVariables ++ found.functions, Declared source t.2

theorem declare_reads {found : Declarations} (all : AllDeclared source found) {type : DataType}
    (declared : Declared source type) (isTypedef : Bool) (name : QualifiedName) :
    Reads source seen (declare isTypedef name type found) fun _ f => AllDeclared source f := by
  have added : ∀ t ∈ [(name, type)], Declared source t.2 :=
    List.forall_mem_singleton.2 declared
  obtain ⟨data, functions⟩ := List.forall_mem_append.1 all
  unfold declare
  split
  · exact .noteWidth fun _ => .bind (.note declared name) fun _ _ _ => .pure all
  · split
    · refine .pure (List.forall_mem_append.2 ⟨data, ?_⟩)
      exact List.forall_mem_append.2 ⟨functions, added⟩
    · refine .pure (List.forall_mem_append.2 ⟨?_, functions⟩)
      exact List.forall_mem_append.2 ⟨data, added⟩

theorem declaredNames_reads {base : DataType} (known : Declared source base) (isTypedef : Bool)
    (fuel : Nat) {found : Declarations} (all : AllDeclared source found) :
    Reads source seen (declaredNames base isTypedef fuel found) fun _ f =>
      AllDeclared source f := by
  induction fuel generalizing seen found with
  | zero => exact .throw
  | succ fuel ih =>
    rw [declaredNames]
    refine .call ((sound source fuel).declarator base known) fun _ d read => ?_
    obtain ⟨type, _ | name⟩ := d
    · exact .fail
    refine .qualify fun q => .bind (declare_reads all read.1 isTypedef q) fun _ now all => ?_
    exact .eat (ih all) (.expect (.pure all))

theorem declarationList_reads (fuel : Nat) {found : Declarations}
    (all : AllDeclared source found) :
    Reads source seen (declarationList fuel found) fun _ f => AllDeclared source f := by
  induction fuel generalizing seen found with
  | zero => exact .throw
  | succ fuel ih =>
    rw [declarationList]
    refine .atEnd fun ended => ?_
    cases ended with
    | true => exact .pure all
    | false =>
      refine .eat (ih all) ?_
      refine .call ((sound source fuel).specifiers true .none unnamed) fun _ base known => ?_
      refine .eat (ih all) ?_
      exact .bind (declaredNames_reads known base.2 fuel all) fun _ _ more => ih more

theorem allDeclarations_reads :
    Reads source [] allDeclarations fun _ found =>
      ∀ t ∈ found.types ++ found.dataVariables ++ found.functions, Declared source t.2 := by
  have nothing : AllDeclared source ⟨[], [], []⟩ := List.forall_mem_nil _
  refine .get fun r => .bind (declarationList_reads _ nothing) fun _ found all => ?_
  refine .of_noted fun r noted => .pure ?_
  rw [List.append_assoc]
  exact List.forall_mem_append.2 ⟨noted, all⟩

end DeclarationReader

end BinaryAtlas
