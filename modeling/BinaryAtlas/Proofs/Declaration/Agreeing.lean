import BinaryAtlas.Proofs.Declaration.Parallel

/-!
Every reader of a part of a declaration stays beside itself, with whatever fuel suffices for the
tokens there are. So no reader runs out of fuel, and none depends on what stands far behind.
-/

set_option autoImplicit false

namespace BinaryAtlas

namespace DeclarationReader

variable {o p : Scene} {room : Nat}

theorem specifierStep_level {r s : DeclarationReader} {depth : Nat} (level : Level o p depth r s)
    (allowTypedef : Bool) (so_far : Specifiers) {w : String}
    (shared : SharedWord o.context p.context w) :
    specifierStep allowTypedef s.context so_far w =
      specifierStep allowTypedef r.context so_far w := by
  unfold specifierStep
  rw [level.size, level.known w shared]

theorem namedType_parallel {name : String} (shared : SharedWord o.context p.context name) :
    Parallel o p room 0 0 (namedType name) (namedType name) := by
  refine .get 0 (fun r _ _ s level => ?_) (Nat.zero_le _)
  rw [level.known name shared]
  exact .pure 0 _

theorem finishSpecifiers_parallel (so_far : Specifiers) :
    Parallel o p room 0 0 (finishSpecifiers so_far) (finishSpecifiers so_far) := by
  refine .get 0 (fun r _ _ s level => ?_) (Nat.zero_le _)
  rw [← level.size]
  split
  · exact .pure 0 _
  · exact .fail _

theorem stars_parallel {fuel g : Nat} (enough : room + 1 ≤ fuel) (enough' : room + 1 ≤ g) :
    Parallel o p room 1 0 (stars fuel) (stars g) := by
  induction fuel generalizing room g with
  | zero => omega
  | succ fuel ih =>
    obtain ⟨g, rfl⟩ : ∃ k, g = k + 1 := ⟨g - 1, by omega⟩
    rw [stars, stars]
    refine .eat (fun m more => ?_) (.pure 1 0) (by decide)
    refine .bind .skipIgnored (fun _ => ?_) (by decide)
    exact .bind (ih (by omega) (by omega)) (fun n => .pure 1 (n + 1)) (by decide)

theorem dimension_parallel : Parallel o p room 0 1 dimension dimension := by
  rw [dimension]
  refine .eat (fun m _ => .pure 0 0) ?_ (by decide)
  refine .bind .number (fun n => .expect fun m _ => ?_) (by decide)
  split
  · exact .fail _
  · exact .pure 0 _

theorem enumerators_parallel {fuel g : Nat} (enough : room + 1 ≤ fuel) (enough' : room + 1 ≤ g)
    (next : Int) : Parallel o p room 0 1 (enumerators fuel next) (enumerators g next) := by
  induction fuel generalizing room g next with
  | zero => omega
  | succ fuel ih =>
    obtain ⟨g, rfl⟩ : ∃ k, g = k + 1 := ⟨g - 1, by omega⟩
    rw [enumerators, enumerators]
    refine .eat (fun m _ => .pure 0 []) ?_ (by decide)
    refine .word (fun m name more _ => .less ?_) (.fail _) (by decide)
    refine .optional (fun found m' fewer => ?_) (by decide)
    -- With a value of its own or without, an enumerator is followed by others or by the brace.
    cases found with
    | true =>
      refine .less (.bind .number (fun value => ?_) (by decide))
      refine .eat (fun k _ => ?_) (.expect fun _ _ => .pure 0 _) (by decide)
      exact .bind (ih (by omega) (by omega) _) (fun others => .pure 0 _) (by decide)
    | false =>
      refine .given (.eat (fun k _ => ?_) (.expect fun _ _ => .pure 0 _) (by decide))
      exact .bind (ih (by omega) (by omega) _) (fun others => .pure 0 _) (by decide)

theorem defining_parallel {α : Type} {look take : Nat} {x y : Reading α}
    (first : Parallel o p room look take x y) (make : α → DataType) {tag : Option String}
    (named : ∀ name ∈ tag, SharedWord o.context p.context name) :
    Parallel o p room look take (do
        let parts ← x
        defineTag tag (make parts)
        pure (make parts)) (do
        let parts ← y
        defineTag tag (make parts)
        pure (make parts)) := by
  refine .bind first (fun parts => ?_) (Nat.le_add_right _ _)
  rw [Nat.sub_self]
  exact .bind (.defineTag look named _) (fun _ => .pure look _) (Nat.le_refl _)

theorem enumSpecifier_parallel {fuel g : Nat} (enough : room + 1 ≤ fuel) (enough' : room + 1 ≤ g) :
    Parallel o p room 1 1 (enumSpecifier fuel) (enumSpecifier g) := by
  have body {m : Nat} (less : m ≤ room) (tag : Option String)
      (named : ∀ name ∈ tag, SharedWord o.context p.context name) :=
    defining_parallel (enumerators_parallel (o := o) (p := p) (show m + 1 ≤ fuel by omega)
      (show m + 1 ≤ g by omega) 0) (fun members => .enumeration tag members 4) named
  rw [enumSpecifier, enumSpecifier]
  refine .word (fun m name more shared => .eat (fun m' _ => ?_) ?_ (by decide))
    (.eat (fun m' _ => ?_) (.fail _) (by decide)) (by decide)
  · exact (body (by omega) (some name) fun _ same => Option.some.inj same ▸ shared).weaken
      (by decide) (by decide)
  · exact (namedType_parallel shared).weaken (by decide) (by decide)
  · exact (body (by omega) none fun _ none => by cases none).weaken (by decide) (by decide)

theorem initializer_parallel (type : DataType) (name : Option String) :
    Parallel o p room 1 0 (do
        if (← get).peek? = some (.mark '=') then fail "initializers are not supported"
        else pure (type, name)) (do
        if (← get).peek? = some (.mark '=') then fail "initializers are not supported"
        else pure (type, name)) := by
  refine .get 1 (fun r small shares s level => ?_) (by decide)
  rw [← level.peek]
  split
  · exact .fail _
  · exact .pure 1 _

/-- With so much fuel on one side and enough on the other, every reader stays beside itself. Four
times the tokens that are left is enough, with a little for readers that hand on taking none. -/
structure Agreeing (o p : Scene) (fuel : Nat) : Prop where
  specifiers : ∀ {room g : Nat} (allowTypedef : Bool) (so_far : Specifiers),
    4 * room + 1 ≤ fuel → 4 * room + 1 ≤ g →
      Parallel o p room 1 0 (specifiers allowTypedef fuel so_far) (specifiers allowTypedef g so_far)
  structSpecifier : ∀ {room g : Nat}, 4 * room + 1 ≤ fuel → 4 * room + 1 ≤ g →
    Parallel o p room 1 1 (structSpecifier fuel) (structSpecifier g)
  structBody : ∀ {room g : Nat}, 4 * room + 4 ≤ fuel → 4 * room + 4 ≤ g →
    Parallel o p room 0 1 (structBody fuel) (structBody g)
  memberNames : ∀ {room g : Nat} (base : DataType), 4 * room + 3 ≤ fuel → 4 * room + 3 ≤ g →
    Parallel o p room 1 0 (memberNames base fuel) (memberNames base g)
  declarator : ∀ {room g : Nat} (base : DataType), 4 * room + 2 ≤ fuel → 4 * room + 2 ≤ g →
    Parallel o p room 1 0 (declarator base fuel) (declarator base g)
  suffixes : ∀ {room g : Nat} (found : Option (List Parameter × Bool)),
    4 * room + 1 ≤ fuel → 4 * room + 1 ≤ g →
      Parallel o p room 1 0 (suffixes found fuel) (suffixes found g)
  opened : ∀ {room g : Nat} {r : DeclarationReader}, 4 * room + 1 ≤ fuel → 4 * room + 1 ≤ g →
    r.tokens.length ≤ room → Shares o p r → r.peek? = some (.mark '(') →
      Beside o p 1 1 r (DeclarationReader.suffixes none fuel) (DeclarationReader.suffixes none g)
  dimensions : ∀ {room g : Nat}, 4 * room + 1 ≤ fuel → 4 * room + 1 ≤ g →
    Parallel o p room 1 0 (dimensions fuel) (dimensions g)
  parameters : ∀ {room g : Nat}, 4 * room + 4 ≤ fuel → 4 * room + 4 ≤ g →
    Parallel o p room 1 1 (parameters fuel) (parameters g)
  parameterList : ∀ {room g : Nat}, 4 * room + 3 ≤ fuel → 4 * room + 3 ≤ g →
    Parallel o p room 0 1 (parameterList fuel) (parameterList g)

namespace Agreeing

variable {fuel g : Nat}

theorem specifiers_next (agreeing : Agreeing o p fuel) (allowTypedef : Bool)
    (so_far : Specifiers) (enough : 4 * room + 1 ≤ fuel + 1) (enough' : 4 * room + 1 ≤ g + 1) :
    Parallel o p room 1 0 (DeclarationReader.specifiers allowTypedef (fuel + 1) so_far)
      (DeclarationReader.specifiers allowTypedef (g + 1) so_far) := by
  rw [DeclarationReader.specifiers, DeclarationReader.specifiers]
  have finished : Parallel o p room 1 0 (finishSpecifiers so_far) (finishSpecifiers so_far) :=
    (finishSpecifiers_parallel so_far).weaken (Nat.zero_le 1) (Nat.le_refl 0)
  refine .get 1 (fun r small shares s level => ?_) (by decide)
  rw [← level.peek]
  split
  next w front =>
    have shared := shares w (word_mem_of_peek front)
    refine .get 0 (fun s level => ?_) (by decide)
    rw [specifierStep_level level allowTypedef so_far shared]
    split
    next =>
      exact .next small shares front fun m _ =>
        agreeing.specifiers allowTypedef _ (by omega) (by omega)
    next =>
      refine .next small shares front fun m _ => ?_
      refine .bind ((agreeing.structSpecifier (by omega) (by omega)).weaken
        (Nat.le_refl _) (Nat.zero_le 1)) (fun type => ?_) (by decide)
      exact agreeing.specifiers allowTypedef _ (by omega) (by omega)
    next =>
      refine .next small shares front fun m _ => ?_
      refine .bind ((enumSpecifier_parallel (by omega) (by omega)).weaken
        (Nat.le_refl _) (Nat.zero_le 1)) (fun type => ?_) (by decide)
      exact agreeing.specifiers allowTypedef _ (by omega) (by omega)
    next => exact finished r small shares
    next => exact .fail _
  next => exact finished r small shares

theorem structSpecifier_next (agreeing : Agreeing o p fuel) (enough : 4 * room + 1 ≤ fuel + 1)
    (enough' : 4 * room + 1 ≤ g + 1) :
    Parallel o p room 1 1 (DeclarationReader.structSpecifier (fuel + 1))
      (DeclarationReader.structSpecifier (g + 1)) := by
  have body {m : Nat} (less : m + 1 ≤ room) (tag : Option String)
      (named : ∀ name ∈ tag, SharedWord o.context p.context name) :=
    defining_parallel (agreeing.structBody (show 4 * m + 4 ≤ fuel by omega)
      (show 4 * m + 4 ≤ g by omega)) (DataType.laidOut tag) named
  rw [DeclarationReader.structSpecifier, DeclarationReader.structSpecifier]
  refine .word (fun m name more shared => .eat (fun m' _ => ?_) ?_ (by decide))
    (.eat (fun m' _ => ?_) (.fail _) (by decide)) (by decide)
  · exact (body (by omega) (some name) fun _ same => Option.some.inj same ▸ shared).weaken
      (by decide) (by decide)
  · exact (namedType_parallel shared).weaken (by decide) (by decide)
  · exact (body (by omega) none fun _ none => by cases none).weaken (by decide) (by decide)

theorem structBody_next (agreeing : Agreeing o p fuel) (enough : 4 * room + 4 ≤ fuel + 1)
    (enough' : 4 * room + 4 ≤ g + 1) :
    Parallel o p room 0 1 (DeclarationReader.structBody (fuel + 1))
      (DeclarationReader.structBody (g + 1)) := by
  rw [DeclarationReader.structBody, DeclarationReader.structBody]
  refine .eat (fun m _ => .pure 0 []) (.atEnd (fun ended => ?_) (by decide)) (by decide)
  cases ended with
  | true => exact .fail _
  | false =>
    refine .bind (agreeing.specifiers false _ (by omega) (by omega)) (fun t => ?_) (by decide)
    refine .bind (agreeing.memberNames _ (by omega) (by omega)) (fun members => ?_) (by decide)
    -- The mark behind the names is what makes the rest shorter.
    refine .expect fun m _ => .less ?_
    refine .bind (agreeing.structBody (by omega) (by omega)) (fun rest => ?_) (by decide)
    exact .pure 0 _

theorem memberNames_next (agreeing : Agreeing o p fuel) (base : DataType)
    (enough : 4 * room + 3 ≤ fuel + 1) (enough' : 4 * room + 3 ≤ g + 1) :
    Parallel o p room 1 0 (DeclarationReader.memberNames base (fuel + 1))
      (DeclarationReader.memberNames base (g + 1)) := by
  rw [DeclarationReader.memberNames, DeclarationReader.memberNames]
  refine .bind (agreeing.declarator base (by omega) (by omega)) (fun d => ?_) (by decide)
  obtain ⟨type, _ | name⟩ := d
  · exact .fail _
  · refine .eat (fun m _ => ?_) (.pure 1 _) (by decide)
    refine .bind (agreeing.memberNames base (by omega) (by omega)) (fun rest => ?_) (by decide)
    exact .pure 1 _

theorem declarator_next (agreeing : Agreeing o p fuel) (base : DataType)
    (enough : 4 * room + 2 ≤ fuel + 1) (enough' : 4 * room + 2 ≤ g + 1) :
    Parallel o p room 1 0 (DeclarationReader.declarator base (fuel + 1))
      (DeclarationReader.declarator base (g + 1)) := by
  rw [DeclarationReader.declarator, DeclarationReader.declarator]
  refine .get 0 (fun r small shares s level => ?_) (by decide)
  rw [← level.size]
  refine Parallel.bind (stars_parallel (by omega) (by omega)) (fun n => ?_) (by decide) r small
    shares
  intro r small shares
  by_cases front : r.peek? = some (.mark '(')
  · -- Either the parenthesis is taken here, or the suffixes take it; so one may look behind it.
    refine .weaken ?_ (Nat.le_refl 1) (Nat.zero_le 1)
    refine .get 1 (fun s level => .get 2 (fun s' level' => ?_) (by decide)) (by decide)
    rw [← level.peek, ← level'.peekSecond]
    split
    next =>
      refine .next small shares front fun m more => ?_
      refine .bind (stars_parallel (by omega) (by omega)) (fun outer => ?_) (by decide)
      refine .word (fun m' name more' _ => .expect fun m'' _ => .given ?_)
        (.expect fun m' _ => .given ?_) (by decide)
      all_goals
        refine .bind (agreeing.suffixes none (by omega) (by omega)) (fun s => ?_) (by decide)
        obtain ⟨parameters, dims⟩ := s
        exact initializer_parallel _ _
    next =>
      refine .word_missing (fun w other => ?_) ?_ (by decide)
      · rw [front] at other
        cases other
      · have opened := agreeing.opened (o := o) (p := p) (show 4 * room + 1 ≤ fuel by omega)
          (show 4 * room + 1 ≤ g by omega) small shares front
        rw [pure_bind, pure_bind]
        refine opened.bind (fun s mid suffix _ => ?_) (Nat.le_add_right 1 0) (Nat.le_refl (1 + 0))
        obtain ⟨parameters, dims⟩ := s
        exact initializer_parallel _ _ mid (Nat.le_refl _) (shares.later suffix)
  · refine .get 1 (fun s level => .get 0 (fun s' level' => ?_) (by decide)) (by decide)
    rw [← level.peek, if_neg fun both => front both.1, if_neg fun both => front both.1]
    refine Parallel.word (fun m name more _ => .given ?_) (.given ?_) (by decide) r small shares
    all_goals
      refine .bind (agreeing.suffixes none (by omega) (by omega)) (fun s => ?_) (by decide)
      obtain ⟨parameters, dims⟩ := s
      exact initializer_parallel _ _

theorem suffixes_next (agreeing : Agreeing o p fuel) (found : Option (List Parameter × Bool))
    (enough : 4 * room + 1 ≤ fuel + 1) (enough' : 4 * room + 1 ≤ g + 1) :
    Parallel o p room 1 0 (DeclarationReader.suffixes found (fuel + 1))
      (DeclarationReader.suffixes found (g + 1)) := by
  rw [DeclarationReader.suffixes, DeclarationReader.suffixes]
  refine .eat (fun m _ => ?_) ?_ (by decide)
  · refine .bind dimension_parallel (fun first => ?_) (by decide)
    refine .bind (agreeing.dimensions (by omega) (by omega)) (fun others => ?_) (by decide)
    exact .pure 1 _
  · cases found with
    | some ps => exact .pure 1 _
    | none =>
      refine .eat (fun m _ => ?_) (.pure 1 _) (by decide)
      refine .bind ((agreeing.parameters (by omega) (by omega)).less) (fun ps => ?_) (by decide)
      exact agreeing.suffixes _ (by omega) (by omega)

theorem opened_next (agreeing : Agreeing o p fuel) {r : DeclarationReader}
    (enough : 4 * room + 1 ≤ fuel + 1) (enough' : 4 * room + 1 ≤ g + 1)
    (small : r.tokens.length ≤ room) (shares : Shares o p r)
    (front : r.peek? = some (.mark '(')) :
    Beside o p 1 1 r (DeclarationReader.suffixes none (fuel + 1))
      (DeclarationReader.suffixes none (g + 1)) := by
  rw [DeclarationReader.suffixes, DeclarationReader.suffixes]
  refine .eat_missing (by rw [front]; decide) ?_ (by decide)
  refine .eat_found small shares front (fun m _ => ?_) (by decide)
  refine .bind ((agreeing.parameters (by omega) (by omega)).less) (fun ps => ?_) (by decide)
  exact agreeing.suffixes _ (by omega) (by omega)

theorem dimensions_next (agreeing : Agreeing o p fuel) (enough : 4 * room + 1 ≤ fuel + 1)
    (enough' : 4 * room + 1 ≤ g + 1) :
    Parallel o p room 1 0 (DeclarationReader.dimensions (fuel + 1))
      (DeclarationReader.dimensions (g + 1)) := by
  rw [DeclarationReader.dimensions, DeclarationReader.dimensions]
  refine .eat (fun m _ => ?_) (.pure 1 []) (by decide)
  refine .bind dimension_parallel (fun first => ?_) (by decide)
  refine .bind (agreeing.dimensions (by omega) (by omega)) (fun others => ?_) (by decide)
  exact .pure 1 _

theorem parameters_next (agreeing : Agreeing o p fuel) (enough : 4 * room + 4 ≤ fuel + 1)
    (enough' : 4 * room + 4 ≤ g + 1) :
    Parallel o p room 1 1 (DeclarationReader.parameters (fuel + 1))
      (DeclarationReader.parameters (g + 1)) := by
  rw [DeclarationReader.parameters, DeclarationReader.parameters]
  refine .eat (fun m _ => .pure 1 _) ?_ (by decide)
  refine .get 1 (fun r small shares s level => .get 2 (fun s' level' => ?_) (by decide)) (by decide)
  rw [← level.peek, ← level'.peekSecond]
  split
  next both =>
    have two : 2 ≤ r.tokens.length := by
      obtain ⟨-, second⟩ := both
      rw [peekSecond?_eq] at second
      obtain ⟨there, -⟩ := List.getElem?_eq_some_iff.1 second
      exact there
    exact .bind (.drop two) (fun _ mid _ _ => .pure 1 _) (by decide) (by decide)
  next =>
    have list := agreeing.parameterList (o := o) (p := p) (show 4 * room + 3 ≤ fuel by omega)
      (show 4 * room + 3 ≤ g by omega)
    exact (list r small shares).weaken (by decide) (Nat.le_refl 1)

theorem parameterList_next (agreeing : Agreeing o p fuel) (enough : 4 * room + 3 ≤ fuel + 1)
    (enough' : 4 * room + 3 ≤ g + 1) :
    Parallel o p room 0 1 (DeclarationReader.parameterList (fuel + 1))
      (DeclarationReader.parameterList (g + 1)) := by
  rw [DeclarationReader.parameterList, DeclarationReader.parameterList]
  refine .get 1 (fun r small shares s level => ?_) (by decide)
  rw [← level.peek]
  split
  next front => exact .next small shares front fun m _ => .expect fun m' _ => .pure 0 _
  next =>
    refine Parallel.bind (agreeing.specifiers false _ (by omega) (by omega)) (fun t => ?_)
      (by decide) r small shares
    refine .bind (agreeing.declarator _ (by omega) (by omega)) (fun d => ?_) (by decide)
    obtain ⟨type, name⟩ := d
    refine .eat (fun m _ => .pure 0 _) (.expect fun m _ => .less ?_) (by decide)
    refine .bind (agreeing.parameterList (by omega) (by omega)) (fun others => ?_) (by decide)
    exact .pure 0 _

end Agreeing

theorem agreeing (o p : Scene) (fuel : Nat) : Agreeing o p fuel := by
  -- Every function calls the others with one less, whatever the other fuel is.
  induction fuel with
  | zero => constructor <;> intros <;> omega
  | succ fuel ih =>
    have some_fuel {n g : Nat} (enough : n + 1 ≤ g) : ∃ k, g = k + 1 := ⟨g - 1, by omega⟩
    constructor
    case specifiers =>
      intro room g allowTypedef so_far enough enough'
      obtain ⟨g, rfl⟩ := some_fuel enough'
      exact ih.specifiers_next allowTypedef so_far enough enough'
    case structSpecifier =>
      intro room g enough enough'
      obtain ⟨g, rfl⟩ := some_fuel enough'
      exact ih.structSpecifier_next enough enough'
    case structBody =>
      intro room g enough enough'
      obtain ⟨g, rfl⟩ := some_fuel enough'
      exact ih.structBody_next enough enough'
    case memberNames =>
      intro room g base enough enough'
      obtain ⟨g, rfl⟩ := some_fuel enough'
      exact ih.memberNames_next base enough enough'
    case declarator =>
      intro room g base enough enough'
      obtain ⟨g, rfl⟩ := some_fuel enough'
      exact ih.declarator_next base enough enough'
    case suffixes =>
      intro room g found enough enough'
      obtain ⟨g, rfl⟩ := some_fuel enough'
      exact ih.suffixes_next found enough enough'
    case opened =>
      intro room g r enough enough' small shares front
      obtain ⟨g, rfl⟩ := some_fuel enough'
      exact ih.opened_next enough enough' small shares front
    case dimensions =>
      intro room g enough enough'
      obtain ⟨g, rfl⟩ := some_fuel enough'
      exact ih.dimensions_next enough enough'
    case parameters =>
      intro room g enough enough'
      obtain ⟨g, rfl⟩ := some_fuel enough'
      exact ih.parameters_next enough enough'
    case parameterList =>
      intro room g enough enough'
      obtain ⟨g, rfl⟩ := some_fuel enough'
      exact ih.parameterList_next enough enough'

section Whole

/-! The readers of whole declarations. -/

theorem declare_parallel (isTypedef : Bool) (name : QualifiedName) (type : DataType)
    (found : Declarations) :
    Parallel o p room 0 0 (declare isTypedef name type found)
      (declare isTypedef name type found) := by
  intro r small shares
  cases isTypedef with
  | true =>
    show Beside o p 0 0 r (noteType name type >>= fun _ => pure found)
      (noteType name type >>= fun _ => pure found)
    exact .bind (.noteType 0 name type) (fun _ _ _ _ => .pure 0 found) (Nat.le_refl 0)
      (Nat.le_refl 0)
  | false => cases type <;> exact .pure 0 _

theorem declaredNames_parallel {fuel g : Nat} (base : DataType) (isTypedef : Bool)
    (found : Declarations) (enough : 4 * room + 3 ≤ fuel) (enough' : 4 * room + 3 ≤ g) :
    Parallel o p room 0 1 (declaredNames base isTypedef fuel found)
      (declaredNames base isTypedef g found) := by
  induction fuel generalizing room g found with
  | zero => omega
  | succ fuel ih =>
    obtain ⟨g, rfl⟩ : ∃ k, g = k + 1 := ⟨g - 1, by omega⟩
    rw [declaredNames, declaredNames]
    refine .bind ((agreeing o p fuel).declarator base (by omega) (by omega)) (fun d => ?_)
      (by decide)
    obtain ⟨type, _ | name⟩ := d
    · exact .fail _
    refine .bind (.qualify 0 name) (fun q => ?_) (by decide)
    refine .bind (declare_parallel isTypedef q type found) (fun found => ?_) (by decide)
    refine .eat (fun m _ => .less ?_) (.expect fun m _ => .pure 0 _) (by decide)
    exact ih found (by omega) (by omega)

/-- One round of a list of declarations, with something left to read. -/
def nextDeclaration (fuel : Nat) (found : Declarations) : Reading Declarations := do
  if ← eat ';' then pure found
  else
    let (base, isTypedef) ← specifiers true fuel .none
    if ← eat ';' then pure found
    else declaredNames base isTypedef fuel found

theorem declarationList_eq (fuel : Nat) (found : Declarations) :
    declarationList (fuel + 1) found = (do
      if ← atEnd then pure found
      else nextDeclaration fuel found >>= declarationList fuel) := by
  rw [declarationList]
  congr 1
  funext ended
  cases ended with
  | true => rfl
  | false =>
    rw [nextDeclaration, if_neg Bool.false_ne_true, if_neg Bool.false_ne_true, bind_assoc]
    congr 1
    funext empty
    cases empty with
    | true => rfl
    | false =>
      rw [if_neg Bool.false_ne_true, if_neg Bool.false_ne_true, bind_assoc]
      congr 1
      funext t
      obtain ⟨base, isTypedef⟩ := t
      show (DeclarationReader.eat ';' >>= _ : Reading Declarations) =
        DeclarationReader.eat ';' >>= _ >>= _
      rw [bind_assoc]
      congr 1
      funext alone
      cases alone <;> rfl

theorem nextDeclaration_parallel {fuel g : Nat} (found : Declarations)
    (enough : 4 * room + 3 ≤ fuel) (enough' : 4 * room + 3 ≤ g) :
    Parallel o p room 0 1 (nextDeclaration fuel found) (nextDeclaration g found) := by
  rw [nextDeclaration, nextDeclaration]
  refine .eat (fun m _ => .pure 0 _) ?_ (by decide)
  refine .bind ((agreeing o p fuel).specifiers true .none (by omega) (by omega)) (fun t => ?_)
    (by decide)
  obtain ⟨base, isTypedef⟩ := t
  refine .eat (fun m _ => .pure 0 _) ?_ (by decide)
  exact declaredNames_parallel base isTypedef found (by omega) (by omega)

theorem declarationList_parallel {fuel g : Nat} (found : Declarations)
    (enough : 4 * room + 4 ≤ fuel) (enough' : 4 * room + 4 ≤ g) :
    Parallel o p room 1 0 (declarationList fuel found) (declarationList g found) := by
  induction fuel generalizing room g found with
  | zero => omega
  | succ fuel ih =>
    obtain ⟨g, rfl⟩ : ∃ k, g = k + 1 := ⟨g - 1, by omega⟩
    rw [declarationList_eq, declarationList_eq]
    refine .atEnd (fun ended => ?_) (by decide)
    cases ended with
    | true => exact .pure 1 found
    | false =>
      intro r small shares
      have round := nextDeclaration_parallel (o := o) (p := p) found
        (show 4 * room + 3 ≤ fuel by omega) (show 4 * room + 3 ≤ g by omega) r small shares
      -- A round that is done has taken something, and so there is fuel for the others.
      have others (found : Declarations) (mid : DeclarationReader)
          (suffix : mid.tokens <:+ r.tokens) (taken : mid.tokens.length + 1 ≤ r.tokens.length) :
          Beside o p 1 0 mid (declarationList fuel found) (declarationList g found) :=
        ih found (by omega) (by omega) mid (Nat.le_refl _) (shares.later suffix)
      exact round.bind others (Nat.zero_le _) (Nat.zero_le _)

/-- A single declaration, with the fuel given. -/
def soleDeclaration (fuel : Nat) : Reading (DataType × QualifiedName) := do
  let (base, _) ← specifiers false fuel .none
  let (type, name) ← declarator base fuel
  discard (eat ';')
  if !(← atEnd) then fail "unexpected trailing input"
  else
    match name <|> tagOf type with
    | none => fail "declaration has no name"
    | some name => pure (type, ← qualify name)

theorem singleDeclaration_eq :
    singleDeclaration = (get >>= fun r => soleDeclaration (fuelFor r.rest)) := by
  unfold singleDeclaration soleDeclaration
  rfl

theorem run_singleDeclaration (r : DeclarationReader) :
    (singleDeclaration).run r = (soleDeclaration (fuelFor r.rest)).run r := by
  rw [singleDeclaration_eq, StateT.run_bind, StateT.run_get, pure_bind]

theorem soleDeclaration_parallel {fuel g : Nat} (enough : 4 * room + 2 ≤ fuel)
    (enough' : 4 * room + 2 ≤ g) :
    Parallel o p room 1 0 (soleDeclaration fuel) (soleDeclaration g) := by
  rw [soleDeclaration, soleDeclaration]
  refine .bind ((agreeing o p fuel).specifiers false .none (by omega) (by omega)) (fun t => ?_)
    (by decide)
  refine .bind ((agreeing o p fuel).declarator t.1 (by omega) (by omega)) (fun d => ?_) (by decide)
  obtain ⟨type, name⟩ := d
  show Parallel o p _ 1 0 (discard (DeclarationReader.eat ';') >>= _)
    (discard (DeclarationReader.eat ';') >>= _)
  rw [Functor.discard, map_const, Function.comp_apply, bind_map_left]
  refine .optional (fun _ m _ => .atEnd (fun ended => ?_) (by decide)) (by decide)
  cases ended with
  | false => exact .fail _
  | true =>
    show Parallel o p m 1 0 (match name <|> tagOf type with
      | none => DeclarationReader.fail _
      | some name => _) (match name <|> tagOf type with
      | none => DeclarationReader.fail _
      | some name => _)
    split
    · exact .fail _
    · exact .bind (.qualify 1 _) (fun q => .pure 1 _) (by decide)

theorem run_allDeclarations (r : DeclarationReader) :
    (allDeclarations).run r = (declarationList (fuelFor r.rest) ⟨[], [], []⟩).run r >>=
      fun reached => .ok ({ reached.1 with types := reached.2.types }, reached.2) := rfl

theorem fuelFor_enough (r : DeclarationReader) : 4 * r.tokens.length + 4 ≤ fuelFor r.rest := by
  rw [tokens, List.length_map, fuelFor]
  omega

theorem Shares.of_wellNamed {r : DeclarationReader} (named : WellNamed r.tokens) :
    Shares ⟨r.context, [], []⟩ ⟨r.context, [], []⟩ r :=
  fun w member => ⟨rfl, named w member⟩

/-! A text is refused for what it says, and never for want of fuel. -/

theorem singleDeclaration_refuses {r : DeclarationReader} (named : WellNamed r.tokens)
    {e : AtlasError} (run : (singleDeclaration).run r = .error e) : ∃ what, e = .parse what := by
  have enough := fuelFor_enough r
  rw [run_singleDeclaration] at run
  exact (soleDeclaration_parallel (g := fuelFor r.rest) (by omega) (by omega) r (Nat.le_refl _)
    (.of_wellNamed named)).refuses e run

theorem allDeclarations_refuses {r : DeclarationReader} (named : WellNamed r.tokens)
    {e : AtlasError} (run : (allDeclarations).run r = .error e) : ∃ what, e = .parse what := by
  have enough := fuelFor_enough r
  rw [run_allDeclarations] at run
  cases list : (declarationList (fuelFor r.rest) ⟨[], [], []⟩).run r with
  | ok reached => rw [list] at run; cases run
  | error e' =>
    rw [list] at run
    obtain rfl := Except.error.inj run
    have parallel := declarationList_parallel ⟨[], [], []⟩ enough enough r (Nat.le_refl _)
      (.of_wellNamed named)
    exact parallel.refuses e' list

end Whole

end DeclarationReader

end BinaryAtlas
