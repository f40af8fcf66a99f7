import BinaryAtlas.Proofs.Declaration.Batches
import BinaryAtlas.Proofs.Declaration.Specifying

/-!
What structures with bodies are read to, wherever they stand: a list of members that is read once is
read the same in front of others and before a closing brace.
-/

set_option autoImplicit false

namespace BinaryAtlas

namespace DeclarationReader

variable {α β : Type}

/-- From every reader at a scene, a reading gives a result and ends at another scene. -/
def Runs (x : Reading α) (s t : Scene) (a : α) : Prop :=
  ∀ r : DeclarationReader, r.scene = s → ∃ later, x.run r = .ok (a, later) ∧ later.scene = t

theorem peek?_of_scene {r : DeclarationReader} {s : Scene} (here : r.scene = s) :
    r.peek? = s.tokens.head? := by
  rw [peek?_eq, ← here]
  rfl

theorem scene_behind {r : DeclarationReader} {c : DeclarationContext}
    {types : List (QualifiedName × DataType)} {token : CToken} {tokens : List CToken}
    (here : r.scene = ⟨c, types, token :: tokens⟩) : (r.behind 1).scene = ⟨c, types, tokens⟩ := by
  obtain ⟨rfl, rfl, front⟩ := Scene.mk.inj here
  rw [scene, tokens_behind, front]
  rfl

namespace Runs

variable {x : Reading α} {s mid t : Scene} {a : α} {b : β} {c : DeclarationContext}
  {types : List (QualifiedName × DataType)} {tokens : List CToken}

theorem pure (s : Scene) (a : α) : Runs (pure a) s s a := fun r here => ⟨r, rfl, here⟩

theorem bind {f : α → Reading β} (first : Runs x s mid a) (next : Runs (f a) mid t b) :
    Runs (x >>= f) s t b := by
  intro r here
  obtain ⟨r', run, there⟩ := first r here
  rw [run_bind_ok run]
  exact next r' there

theorem get {f : DeclarationReader → Reading β} (next : ∀ r, r.scene = s → Runs (f r) s t b) :
    Runs (get >>= f) s t b :=
  fun r here => next r here r here

theorem eat_found {m : Char} {f : Bool → Reading β} (next : Runs (f true) ⟨c, types, tokens⟩ t b) :
    Runs (eat m >>= f) ⟨c, types, .mark m :: tokens⟩ t b := by
  intro r here
  have front : r.peek? = some (.mark m) := peek?_of_scene here
  rw [run_eat, if_pos front]
  exact next (r.behind 1) (scene_behind here)

theorem eat_missing {m : Char} {f : Bool → Reading β} (front : s.tokens.head? ≠ some (.mark m))
    (next : Runs (f false) s t b) : Runs (eat m >>= f) s t b := by
  intro r here
  rw [run_eat, if_neg (peek?_of_scene here ▸ front)]
  exact next r here

theorem expect (m : Char) :
    Runs (expect m) ⟨c, types, .mark m :: tokens⟩ ⟨c, types, tokens⟩ () := by
  rw [DeclarationReader.expect]
  exact .eat_found (.pure _ ())

theorem word {w : String} {f : Option String → Reading β}
    (next : Runs (f (some w)) ⟨c, types, tokens⟩ t b) :
    Runs (word? >>= f) ⟨c, types, .word w :: tokens⟩ t b := by
  intro r here
  rw [run_word, peek?_of_scene here]
  exact next (r.behind 1) (scene_behind here)

theorem some_left {f : Bool → Reading β} (left : s.tokens ≠ []) (next : Runs (f false) s t b) :
    Runs (atEnd >>= f) s t b := by
  refine .get fun r here => ?_
  have more : r.rest.isEmpty = false := by
    rw [List.isEmpty_eq_false_iff]
    rintro none
    refine left ?_
    rw [← here, scene, tokens, none]
    rfl
  show Runs (f r.rest.isEmpty) s t b
  rwa [more]

end Runs

section Structures

variable {c c' : DeclarationContext} {types types' : List (QualifiedName × DataType)}
  {tokens rest : List CToken} {s mid t : Scene} {tag : String} {q : QualifiedName}
  {type : DataType} {fields : List (String × DataType)} {g : Nat}

theorem structSpecifier_reference (bodiless : tokens.head? ≠ some (.mark '\x7b')) :
    Runs (structSpecifier (g + 1)) ⟨c, types, .word tag :: tokens⟩ ⟨c, types, tokens⟩
      (.named tag ((c.known.get? tag).getD 0)) := by
  rw [structSpecifier]
  refine .word (.eat_missing bodiless (.get fun r here => ?_))
  rw [show r.context = c from congrArg Scene.context here]
  exact .pure _ _

theorem structSpecifier_body (named : QualifiedName.parse tag = .ok q) (text : q.text = tag)
    (body : Runs (structBody g) ⟨c, types, tokens⟩ ⟨c', types', rest⟩ fields) :
    Runs (structSpecifier (g + 1)) ⟨c, types, .word tag :: .mark '\x7b' :: tokens⟩
      ⟨c'.grown [(q, .laidOut (some tag) fields)], types' ++ [(q, .laidOut (some tag) fields)],
        rest⟩ (.laidOut (some tag) fields) := by
  have noted : Runs (defineTag (some tag) (.laidOut (some tag) fields)) ⟨c', types', rest⟩
      ⟨c'.grown [(q, .laidOut (some tag) fields)], types' ++ [(q, .laidOut (some tag) fields)],
        rest⟩ () := by
    intro r here
    obtain ⟨rfl, rfl, rfl⟩ := Scene.mk.inj here
    rw [run_defineTag named text]
    exact ⟨_, rfl, rfl⟩
  rw [structSpecifier]
  exact .word (.eat_found (.bind body (.bind noted (.pure _ _))))

/-- If a word is in front, it is no further specifier. -/
def Stops (tokens : List CToken) : Prop := ∀ w, tokens.head? = some (.word w) → Free w

theorem specifiers_stops {r : DeclarationReader} (stops : Stops r.tokens) (allowTypedef : Bool)
    (fuel : Nat) {so_far : Specifiers} (specified : so_far.base.isSome ∨ so_far.hasModifiers) :
    (specifiers allowTypedef (fuel + 1) so_far).run r = (finishSpecifiers so_far).run r := by
  cases front : r.peek? with
  | some token =>
    cases token with
    | word w => exact specifiers_stop (stops w (peek?_eq r ▸ front)) front _ _ specified
    | _ => rw [specifiers, StateT.run_bind, StateT.run_get, pure_bind, front]
  | none => rw [specifiers, StateT.run_bind, StateT.run_get, pure_bind, front]

theorem specifiers_struct (allowTypedef : Bool)
    (specified : Runs (structSpecifier (g + 1)) ⟨c, types, tokens⟩ mid type)
    (stops : Stops mid.tokens) : Runs (specifiers allowTypedef (g + 2) .none)
      ⟨c, types, .word "struct" :: tokens⟩ mid (type, false) := by
  -- With a type given, what follows is no specifier any more.
  have finished : Runs (specifiers allowTypedef (g + 1)
      { Specifiers.none with base := some (.other type) }) mid mid (type, false) := by
    intro r here
    rw [specifiers_stops (by rw [← here] at stops; exact stops) _ _ (.inl rfl),
      (run_finishSpecifiers _ r).1 type rfl]
    exact ⟨r, rfl, here⟩
  have step (context : DeclarationContext) :
      specifierStep allowTypedef context .none "struct" = .structure_ := by
    cases allowTypedef <;> rfl
  intro r here
  rw [specifiers, StateT.run_bind, StateT.run_get, pure_bind, peek?_of_scene here]
  dsimp only [List.head?_cons]
  rw [StateT.run_bind, StateT.run_get, pure_bind, step]
  have both : Runs (structSpecifier (g + 1) >>= fun type => specifiers allowTypedef (g + 1)
      { Specifiers.none with base := some (.other type) }) ⟨c, types, tokens⟩ mid (type, false) :=
    .bind specified finished
  exact both (r.behind 1) (scene_behind here)

def memberGroup (fuel : Nat) : Reading (List (String × DataType)) := do
  let (type, _) ← specifiers false fuel .none
  let members ← memberNames type fuel
  expect ';'
  pure members

theorem structBody_eq (fuel : Nat) : structBody (fuel + 1) = (do
    if ← eat '\x7d' then pure []
    else if ← atEnd then fail "unterminated struct body"
    else
      let members ← memberGroup fuel
      pure (members ++ (← structBody fuel))) := by
  rw [structBody]
  refine bind_congr fun closed => ?_
  cases closed with
  | true => rfl
  | false =>
    refine bind_congr fun ended => ?_
    cases ended with
    | true => rfl
    | false =>
      show _ = (memberGroup fuel >>= _ : Reading (List (String × DataType)))
      rw [memberGroup, bind_assoc]
      refine bind_congr fun t => ?_
      rw [bind_assoc]
      refine bind_congr fun members => ?_
      rw [bind_assoc]
      rfl

theorem memberGroup_parallel {o p : Scene} {room fuel g : Nat} (enough : 4 * room + 3 ≤ fuel)
    (enough' : 4 * room + 3 ≤ g) :
    Parallel o p room 0 1 (memberGroup fuel) (memberGroup g) := by
  rw [memberGroup, memberGroup]
  refine .bind ((agreeing o p fuel).specifiers false .none (by omega) (by omega)) (fun t => ?_)
    (by decide)
  refine .bind ((agreeing o p fuel).memberNames t.1 (by omega) (by omega)) (fun members => ?_)
    (by decide)
  exact .expect fun m _ => .pure 0 members

theorem memberGroup_struct {member : String} (free : Free member)
    (specified : Runs (structSpecifier (g + 2)) ⟨c, types, tokens⟩
      ⟨c', types', .word member :: .mark ';' :: rest⟩ type) :
    Runs (memberGroup (g + 3)) ⟨c, types, .word "struct" :: tokens⟩ ⟨c', types', rest⟩
      [(member, type)] := by
  have stops : Stops (.word member :: .mark ';' :: rest) := fun w front =>
    CToken.word.inj (Option.some.inj front) ▸ free
  have name : Runs (declarator type (g + 2)) ⟨c', types', .word member :: .mark ';' :: rest⟩
      ⟨c', types', .mark ';' :: rest⟩ (type, some member) := fun r here =>
    ⟨_, declarator_name (congrArg Scene.tokens here) (.inr rfl) type g, scene_behind here⟩
  rw [memberGroup]
  have names : Runs (memberNames type (g + 3)) ⟨c', types', .word member :: .mark ';' :: rest⟩
      ⟨c', types', .mark ';' :: rest⟩ [(member, type)] := by
    rw [memberNames]
    exact .bind name (.eat_missing (by simp) (.pure _ _))
  exact .bind (specifiers_struct false specified stops)
    (.bind names (.bind (.expect ';') (.pure _ _)))

theorem nextDeclaration_struct (found : Declarations)
    (specified : Runs (structSpecifier (g + 1)) ⟨c, types, tokens⟩
      ⟨c', types', .mark ';' :: rest⟩ type) :
    Runs (nextDeclaration (g + 2) found) ⟨c, types, .word "struct" :: tokens⟩ ⟨c', types', rest⟩
      found := by
  rw [nextDeclaration]
  refine .eat_missing (by simp) ?_
  exact .bind (specifiers_struct true specified (fun w front => by cases front))
    (.eat_found (.pure _ _))

end Structures

/-- What a list of members comes to: the fields, and the types it declares on the way. -/
structure Members where
  fields : List (String × DataType)
  tags : List (QualifiedName × DataType)
  deriving DecidableEq

namespace Members

def type (m : Members) (tag : String) : DataType := .laidOut (some tag) m.fields

/-- The types that a structure with the members declares, with that of its tag behind the others. -/
def declared (m : Members) (tag : String) (q : QualifiedName) : List (QualifiedName × DataType) :=
  m.tags ++ [(q, m.type tag)]

end Members

def beforeMembers (c : DeclarationContext) (tokens : List CToken) : DeclarationReader :=
  ⟨(tokens ++ [CToken.mark '\x7d']).map (⟨·, 0⟩), 0, c, []⟩

theorem scene_beforeMembers (c : DeclarationContext) (tokens : List CToken) :
    (beforeMembers c tokens).scene = ⟨c, [], tokens ++ [.mark '\x7d']⟩ := by
  rw [scene, DeclarationReader.tokens, beforeMembers, List.map_map]
  exact congrArg (Scene.mk c []) (List.map_id _)

/-- In a context, a list of members is read up to a closing brace behind it. -/
def MemberList (c : DeclarationContext) (tokens : List CToken) (members : Members) : Prop :=
  ((structBody (fuelFor (beforeMembers c tokens).rest)).run (beforeMembers c tokens)).toOption.map
    (fun reached => (Members.mk reached.1 reached.2.types, reached.2.tokens)) = some (members, [])

instance (c : DeclarationContext) (tokens : List CToken) (members : Members) :
    Decidable (MemberList c tokens members) :=
  inferInstanceAs (Decidable (_ = _))

/-- With enough fuel, whatever reader stands at a scene reads fields from there to the end of a
body, and is at another scene then. -/
def BodyRuns (s t : Scene) (fields : List (String × DataType)) : Prop :=
  ∀ g, 4 * s.tokens.length + 8 ≤ g → Runs (structBody g) s t fields

theorem BodyRuns.closed (c : DeclarationContext) (types : List (QualifiedName × DataType))
    (tokens : List CToken) :
    BodyRuns ⟨c, types, .mark '\x7d' :: tokens⟩ ⟨c, types, tokens⟩ [] := by
  intro g enough
  obtain ⟨g, rfl⟩ : ∃ k, g = k + 1 := ⟨g - 1, by omega⟩
  rw [structBody]
  exact .eat_found (.pure _ [])

theorem BodyRuns.group {s mid t : Scene} {group fields : List (String × DataType)}
    (unclosed : s.tokens.head? ≠ some (.mark '\x7d'))
    (shorter : mid.tokens.length < s.tokens.length)
    (first : ∀ g, 4 * s.tokens.length + 7 ≤ g → Runs (memberGroup g) s mid group)
    (others : BodyRuns mid t fields) : BodyRuns s t (group ++ fields) := by
  intro g enough
  obtain ⟨g, rfl⟩ : ∃ k, g = k + 1 := ⟨g - 1, by omega⟩
  have left : s.tokens ≠ [] := List.ne_nil_of_length_pos (by omega)
  rw [structBody_eq]
  refine .eat_missing unclosed (.some_left left (.bind (first g (by omega)) ?_))
  exact .bind (others g (by omega)) (.pure _ _)

theorem run_structBody {r : DeclarationReader} {token : CToken} (front : r.peek? = some token)
    (unclosed : token ≠ .mark '\x7d') (fuel : Nat) :
    (structBody (fuel + 1)).run r =
      (memberGroup fuel >>= fun group => (group ++ ·) <$> structBody fuel).run r := by
  have other : ¬ r.peek? = some (.mark '\x7d') := by
    rw [front]
    exact fun same => unclosed (Option.some.inj same)
  have left : r.rest.isEmpty = false := by
    rw [List.isEmpty_eq_false_iff]
    intro none
    rw [peek?, none] at front
    cases front
  rw [structBody_eq, run_eat, if_neg other]
  show (if r.rest.isEmpty = true then _ else _ : Reading (List (String × DataType))).run r = _
  rw [left]
  rfl

theorem run_structBody_ok {r later : DeclarationReader} {token : CToken}
    (front : r.peek? = some token) (unclosed : token ≠ .mark '\x7d') {fuel : Nat}
    {fields : List (String × DataType)}
    (run : (structBody (fuel + 1)).run r = .ok (fields, later)) :
    ∃ group mid others, (memberGroup fuel).run r = .ok (group, mid) ∧
      (structBody fuel).run mid = .ok (others, later) ∧ fields = group ++ others := by
  rw [run_structBody front unclosed] at run
  cases first : (memberGroup fuel).run r with
  | error e => rw [run_bind_error first] at run; cases run
  | ok reached =>
    obtain ⟨group, mid⟩ := reached
    rw [run_bind_ok first, StateT.run_map] at run
    cases second : (structBody fuel).run mid with
    | error e => rw [second] at run; cases run
    | ok reached =>
      obtain ⟨others, last⟩ := reached
      rw [second] at run
      obtain ⟨rfl, rfl⟩ := Prod.mk.inj (Except.ok.inj run)
      exact ⟨group, mid, others, rfl, second, rfl⟩

/-- Members that are closed where the shared tokens end are read the same where more members stand
behind them. -/
theorem structBody_passes {o p : Scene} (ended : o.tokens = [.mark '\x7d']) {fuel g : Nat}
    {fields : List (String × DataType)} {r s later : DeclarationReader} (alike : Alike o p r s)
    (shares : Shares o p r) (enough : 4 * r.tokens.length + 4 ≤ fuel)
    (enough' : 4 * s.tokens.length + 8 ≤ g)
    (run : (structBody fuel).run r = .ok (fields, later)) (whole : later.tokens = []) :
    ∃ noted after rest, later.types = o.types ++ noted ∧ after.scene = p.onward [] noted ∧
      4 * after.tokens.length + 8 ≤ rest ∧
        (structBody g).run s = ((fields ++ ·) <$> structBody rest).run after := by
  -- Both take the same groups, until only the brace is left to the first one.
  induction fuel generalizing g fields r s with
  | zero => omega
  | succ fuel ih =>
    obtain ⟨g, rfl⟩ : ∃ k, g = k + 1 := ⟨g - 1, by omega⟩
    have longer := alike.tokens_length
    rw [ended, List.length_singleton] at longer
    obtain ⟨shared, noted, left, right⟩ := alike.reached
    have left_tokens : r.tokens = shared ++ [.mark '\x7d'] :=
      (congrArg Scene.tokens left).trans (congrArg (shared ++ ·) ended)
    have right_tokens : s.tokens = shared ++ p.tokens := congrArg Scene.tokens right
    by_cases closed : r.peek? = some (.mark '\x7d')
    · rw [structBody_eq, run_eat, if_pos closed] at run
      obtain ⟨rfl, rfl⟩ := Prod.mk.inj (Except.ok.inj run)
      -- The brace is the last token, and so no shared one.
      have none_shared : shared = [] := by
        have last : (r.behind 1).tokens = [] := whole
        rw [tokens_behind, left_tokens] at last
        cases shared with
        | nil => rfl
        | cons _ rest => simp at last
      refine ⟨noted, s, g + 1, congrArg Scene.types left, none_shared ▸ right, enough', ?_⟩
      exact congrArg (StateT.run · s) (id_map _).symm
    · obtain ⟨token, more, rfl⟩ : ∃ token more, shared = token :: more := by
        cases shared with
        | nil => exact absurd (peek?_of_tokens left_tokens) closed
        | cons token more => exact ⟨token, more, rfl⟩
      have front := peek?_of_tokens left_tokens
      have unclosed : token ≠ .mark '\x7d' := fun same => closed (same ▸ front)
      obtain ⟨group, mid, others, first, second, rfl⟩ := run_structBody_ok front unclosed run
      have round := memberGroup_parallel (o := o) (p := p)
        (show 4 * r.tokens.length + 3 ≤ fuel by omega) (show 4 * r.tokens.length + 3 ≤ g by omega)
        r (Nat.le_refl _) shares
      obtain ⟨suffix, taken⟩ := round.takes group mid first
      -- The closing brace is still in front of what the group leaves.
      have body := (agreeing o p fuel).structBody (show 4 * mid.tokens.length + 4 ≤ fuel by omega)
        (show 4 * mid.tokens.length + 4 ≤ fuel by omega) mid (Nat.le_refl _) (shares.later suffix)
      have brace := (body.takes others later second).2
      have within : Within o p 0 mid := .inr (by rw [ended, List.length_singleton]; omega)
      obtain ⟨after, other, alike_mid⟩ := round.agrees s alike group mid first within
      have longer_mid := alike_mid.tokens_length
      rw [ended, List.length_singleton] at longer_mid
      obtain ⟨noted, last, rest, types, there, room, goes⟩ :=
        ih (g := g) alike_mid (shares.later suffix) (by omega) (by omega) second
      refine ⟨noted, last, rest, types, there, room, ?_⟩
      rw [run_structBody (peek?_of_tokens right_tokens) unclosed, run_bind_ok other,
        StateT.run_map, goes, StateT.run_map, StateT.run_map]
      cases (structBody rest).run last with
      | error e => rfl
      | ok reached =>
        exact congrArg (fun fields => Except.ok (fields, reached.2)) (List.append_assoc _ _ _).symm

theorem MemberList.passes {c c' : DeclarationContext} {tokens rest : List CToken}
    {members : Members} (list : MemberList c tokens members) (proper : WellNamed tokens)
    (size : c.addressSize = c'.addressSize)
    (known : ∀ w, .word w ∈ tokens → c.known.get? w = c'.known.get? w)
    {types : List (QualifiedName × DataType)} {t : Scene} {fields : List (String × DataType)}
    (others : BodyRuns ⟨c'.grown members.tags, types ++ members.tags, rest⟩ t fields) :
    BodyRuns ⟨c', types, tokens ++ rest⟩ t (members.fields ++ fields) := by
  intro g enough s here
  -- The list was read before a brace, and the reader here has the same in front of something else.
  obtain ⟨⟨read, later⟩, run, same⟩ := Option.map_eq_some_iff.1 list
  obtain ⟨rfl, whole⟩ := Prod.mk.inj same
  have before := scene_beforeMembers c tokens
  have alike : Alike ⟨c, [], [.mark '\x7d']⟩ ⟨c', types, rest⟩ (beforeMembers c tokens) s :=
    .start size tokens before here
  have shares : Shares ⟨c, [], [.mark '\x7d']⟩ ⟨c', types, rest⟩ (beforeMembers c tokens) := by
    intro w member
    rw [show (beforeMembers c tokens).tokens = _ from congrArg Scene.tokens before] at member
    obtain inside | brace := List.mem_append.1 member
    · exact ⟨known w inside, proper w inside⟩
    · cases List.mem_singleton.1 brace
  have room : 4 * s.tokens.length + 8 ≤ g := by
    rw [show s.tokens = tokens ++ rest from congrArg Scene.tokens here]
    exact enough
  obtain ⟨noted, after, fuel, types, there, left, goes⟩ := structBody_passes rfl alike shares
    (fuelFor_enough _) room (CToken.eq_ok_of_toOption run) whole
  obtain rfl : later.types = noted := types
  rw [show after.tokens = rest from congrArg Scene.tokens there] at left
  obtain ⟨last, run_others, reached⟩ := others fuel left after there
  exact ⟨last, by rw [goes, StateT.run_map, run_others]; rfl, reached⟩

theorem MemberList.closes {c c' : DeclarationContext} {tokens : List CToken} {members : Members}
    (list : MemberList c tokens members) (proper : WellNamed tokens)
    (size : c.addressSize = c'.addressSize)
    (known : ∀ w, .word w ∈ tokens → c.known.get? w = c'.known.get? w)
    (types : List (QualifiedName × DataType)) (rest : List CToken) :
    BodyRuns ⟨c', types, tokens ++ .mark '\x7d' :: rest⟩
      ⟨c'.grown members.tags, types ++ members.tags, rest⟩ members.fields := by
  have whole := list.passes proper size known
    (.closed (c'.grown members.tags) (types ++ members.tags) rest)
  rwa [List.append_nil] at whole

/-- From a scene, whole declarations are read that only note types. -/
def ListRuns (s t : Scene) : Prop :=
  ∀ g, 8 * s.tokens.length + 8 ≤ g → Runs (declarationList g .nothing) s t .nothing

theorem ListRuns.ended (c : DeclarationContext) (types : List (QualifiedName × DataType)) :
    ListRuns ⟨c, types, []⟩ ⟨c, types, []⟩ := by
  intro g enough
  obtain ⟨g, rfl⟩ : ∃ k, g = k + 1 := ⟨g - 1, by omega⟩
  rw [declarationList]
  refine .get fun r here => ?_
  have none_left : r.rest = [] := List.map_eq_nil_iff.1 (congrArg Scene.tokens here)
  show Runs (if r.rest.isEmpty = true then _ else _) _ _ _
  rw [none_left]
  exact .pure _ _

theorem ListRuns.struct {c c' : DeclarationContext} {types types' : List (QualifiedName × DataType)}
    {tokens rest : List CToken} {fields : List (String × DataType)} {tag : String}
    {q : QualifiedName} {t : Scene} (named : QualifiedName.parse tag = .ok q) (text : q.text = tag)
    (body : BodyRuns ⟨c, types, tokens⟩ ⟨c', types', .mark ';' :: rest⟩ fields)
    (shorter : rest.length < tokens.length)
    (others : ListRuns ⟨c'.grown [(q, .laidOut (some tag) fields)],
      types' ++ [(q, .laidOut (some tag) fields)], rest⟩ t) :
    ListRuns ⟨c, types, .word "struct" :: .word tag :: .mark '\x7b' :: tokens⟩ t := by
  intro g enough
  simp only [List.length_cons] at enough
  obtain ⟨g, rfl⟩ : ∃ k, g = k + 3 := ⟨g - 3, by omega⟩
  have specified := structSpecifier_body named text (body g (by dsimp only; omega))
  rw [declarationList_eq]
  refine .some_left (List.cons_ne_nil _ _) ?_
  exact .bind (nextDeclaration_struct .nothing specified) (others (g + 2) (by dsimp only; omega))

theorem ListRuns.parses {context : DeclarationContext} {text : String} {tokens : List CToken}
    {t : Scene} (spelled : CToken.Spells text tokens) (runs : ListRuns ⟨context, [], tokens⟩ t) :
    context.parseTypes text = .ok ⟨t.types, [], []⟩ := by
  obtain ⟨placed, lexed, rfl⟩ := (CToken.lex_eq_ok_iff text _).2 spelled
  have enough : 8 * (placed.map (·.token)).length + 8 ≤ fuelFor placed := by
    rw [List.length_map, fuelFor]
  obtain ⟨later, run, there⟩ :=
    runs _ enough ⟨placed, text.utf8ByteSize, context, []⟩ rfl
  rw [DeclarationContext.parseTypes_eq_ok_iff lexed]
  exact ⟨_, later, run, by rw [← there]; rfl⟩

/-- From a context on, tokens in front are read as members that one type is given for, with the
types noted that they declare. -/
def GroupRuns (c : DeclarationContext) (tokens : List CToken)
    (noted : List (QualifiedName × DataType)) (fields : List (String × DataType)) : Prop :=
  ∀ types rest g, 4 * (tokens ++ rest).length + 7 ≤ g → Runs (memberGroup g)
    ⟨c, types, tokens ++ rest⟩ ⟨c.grown noted, types ++ noted, rest⟩ fields

theorem BodyRuns.around {c : DeclarationContext} {front group back : List CToken} {f k : Members}
    {noted : List (QualifiedName × DataType)} {fields : List (String × DataType)}
    (before : MemberList c front f) (one : GroupRuns (c.grown f.tags) group noted fields)
    (after : MemberList ((c.grown f.tags).grown noted) back k)
    (begins : group.head? = some (.word "struct")) (proper : WellNamed (front ++ (group ++ back)))
    (types : List (QualifiedName × DataType)) (rest : List CToken) :
    BodyRuns ⟨c, types, front ++ (group ++ (back ++ .mark '\x7d' :: rest))⟩
      ⟨((c.grown f.tags).grown noted).grown k.tags, types ++ f.tags ++ noted ++ k.tags, rest⟩
        (f.fields ++ (fields ++ k.fields)) := by
  have front_proper : WellNamed front := fun w inside => proper w (by simp [inside])
  have back_proper : WellNamed back := fun w inside => proper w (by simp [inside])
  have closes := after.closes back_proper rfl (fun _ _ => rfl) (types ++ f.tags ++ noted) rest
  refine before.passes front_proper rfl (fun _ _ => rfl) (.group ?_ ?_ (one _ _) closes)
  · cases group with
    | nil => cases begins
    | cons token _ =>
      obtain rfl := Option.some.inj begins
      simp
  · cases group with
    | nil => cases begins
    | cons _ _ => simp only [List.length_append, List.length_cons]; omega

def bodied (tag : String) (body : List CToken) : List CToken :=
  .word "struct" :: .word tag :: .mark '\x7b' :: (body ++ [.mark '\x7d'])

theorem bodied_append (tag : String) (body rest : List CToken) : bodied tag body ++ rest =
    .word "struct" :: .word tag :: .mark '\x7b' :: (body ++ .mark '\x7d' :: rest) := by
  simp [bodied]

theorem wellNamed_body {tag : String} {body : List CToken} (proper : WellNamed (bodied tag body)) :
    WellNamed body :=
  fun w there => proper w (by rw [bodied]; simp only [List.mem_cons, List.mem_append, there]; tauto)

section Groups

variable {c : DeclarationContext} {tag member : String} {q : QualifiedName} {body : List CToken}
  {b : Members}

def referring (tag member : String) : List CToken :=
  [.word "struct", .word tag, .word member, .mark ';']

theorem GroupRuns.referring (free : Free member) : GroupRuns c (referring tag member) []
    [(member, .named tag ((c.known.get? tag).getD 0))] := by
  intro types rest g enough
  obtain ⟨g, rfl⟩ : ∃ k, g = k + 3 := ⟨g - 3, by omega⟩
  rw [List.append_nil]
  exact memberGroup_struct free (structSpecifier_reference (by simp))

def placing (tag member : String) (body : List CToken) : List CToken :=
  bodied tag body ++ [.word member, .mark ';']

theorem GroupRuns.placing (free : Free member) (named : QualifiedName.parse tag = .ok q)
    (proper : WellNamed (bodied tag body)) (list : MemberList c body b) :
    GroupRuns c (placing tag member body) (b.declared tag q) [(member, b.type tag)] := by
  intro types rest g enough
  have tokens : DeclarationReader.placing tag member body ++ rest = .word "struct" :: .word tag ::
      .mark '\x7b' :: (body ++ .mark '\x7d' :: .word member :: .mark ';' :: rest) := by
    rw [DeclarationReader.placing, List.append_assoc, bodied_append]
    rfl
  rw [tokens] at enough ⊢
  have closes := list.closes (wellNamed_body proper) rfl (fun _ _ => rfl) types
    (.word member :: .mark ';' :: rest)
  simp only [List.length_cons] at enough
  obtain ⟨g, rfl⟩ : ∃ k, g = k + 3 := ⟨g - 3, by omega⟩
  have specified := structSpecifier_body named
    (proper.text_eq (by simp [bodied]) named) (closes (g + 1) (by dsimp only; omega))
  rw [Members.declared, DeclarationContext.grown_append, ← List.append_assoc]
  exact memberGroup_struct free specified

end Groups

theorem ListRuns.last {c : DeclarationContext} {front group back : List CToken} {f k : Members}
    {noted : List (QualifiedName × DataType)} {fields : List (String × DataType)} {name : String}
    {r : QualifiedName} (types : List (QualifiedName × DataType))
    (before : MemberList c front f) (one : GroupRuns (c.grown f.tags) group noted fields)
    (after : MemberList ((c.grown f.tags).grown noted) back k)
    (begins : group.head? = some (.word "struct"))
    (proper : WellNamed (bodied name (front ++ (group ++ back))))
    (named : QualifiedName.parse name = .ok r) :
    ∃ t, ListRuns ⟨c, types, bodied name (front ++ (group ++ back)) ++ [.mark ';']⟩ t ∧
      t.types = types ++ f.tags ++ noted ++ k.tags ++
        [(r, .laidOut (some name) (f.fields ++ (fields ++ k.fields)))] := by
  have body := BodyRuns.around before one after begins (wellNamed_body proper) types [.mark ';']
  rw [bodied_append, List.append_assoc, List.append_assoc]
  refine ⟨_, .struct named (proper.text_eq (by simp [bodied]) named) body ?_ (.ended _ _), rfl⟩
  simp only [List.length_append, List.length_cons]
  omega

end DeclarationReader

end BinaryAtlas
