import BinaryAtlas.Proofs.Declaration.Agreeing
import BinaryAtlas.Proofs.Declaration.Declaring
import BinaryAtlas.Proofs.Declaration.Lexing

/-!
Built-in types are spelled with words in any order. What counts is how often each word is there, and
of those for the sign the last one.
-/

set_option autoImplicit false

namespace BinaryAtlas

def sign? (word : String) : Option Bool :=
  if word = "signed" then some true else if word = "unsigned" then some false else none

def builtinWords : List String :=
  ["signed", "unsigned", "short", "long", "void", "bool", "_Bool", "char", "int", "float", "double"]

/-- A word of a built-in type, or a qualifier. -/
def Builtin (word : String) : Prop := word ∈ builtinWords ++ DeclarationReader.ignoredWords

/-- A word that can name what is declared. -/
def Free (word : String) : Prop :=
  ¬ Builtin word ∧ word ∉ ["typedef", "union", "struct", "enum"]

instance (word : String) : Decidable (Builtin word) := inferInstanceAs (Decidable (word ∈ _))

instance (word : String) : Decidable (Free word) := inferInstanceAs (Decidable (_ ∧ _))

def bases (words : List String) : List BaseType := words.filterMap BaseType.ofWord?

def lastSign (words : List String) : Option Bool := (words.filterMap sign?).getLast?

namespace Specifiers

def noting (s : Specifiers) (word : String) : Specifiers :=
  { s with
    signed := (sign? word).or s.signed
    shorts := s.shorts + if word = "short" then 1 else 0
    longs := s.longs + if word = "long" then 1 else 0
    base := (BaseType.ofWord? word).or s.base }

def ofWords (words : List String) : Specifiers := words.foldl noting .none

theorem getLast?_filterMap_cons {α : Type} (f : String → Option α) (word : String)
    (words : List String) (before : Option α) :
    ((word :: words).filterMap f).getLast?.or before =
      (words.filterMap f).getLast?.or ((f word).or before) := by
  rw [List.filterMap_cons]
  cases f word with
  | none => rfl
  | some a =>
    rw [List.getLast?_cons]
    cases (words.filterMap f).getLast? <;> rfl

theorem foldl_noting (words : List String) (s : Specifiers) :
    words.foldl noting s =
      { s with
        signed := (lastSign words).or s.signed
        shorts := s.shorts + words.count "short"
        longs := s.longs + words.count "long"
        base := (bases words).getLast?.or s.base } := by
  induction words generalizing s with
  | nil => rfl
  | cons word rest ih =>
    have counted (w : String) (n : Nat) : n + (if word = w then 1 else 0) + rest.count w =
        n + (word :: rest).count w := by
      rw [List.count_cons]
      simp only [beq_iff_eq]
      omega
    rw [List.foldl_cons, ih, lastSign, lastSign, bases, bases, getLast?_filterMap_cons,
      getLast?_filterMap_cons]
    simp only [noting, counted]

theorem ofWords_eq (words : List String) : ofWords words =
    ⟨false, lastSign words, words.count "short", words.count "long", (bases words).getLast?⟩ := by
  rw [ofWords, foldl_noting]
  simp [none]

theorem ofWords_blank {words : List String}
    (unspecified : ¬ ((ofWords words).base.isSome ∨ (ofWords words).hasModifiers)) :
    ofWords words = none := by
  obtain ⟨unnamed, plain⟩ := not_or.1 unspecified
  rw [ofWords_eq] at unnamed plain ⊢
  simp only [hasModifiers, Bool.or_eq_true, decide_eq_true_eq, not_or, Nat.not_lt,
    Nat.le_zero, Option.not_isSome_iff_eq_none] at unnamed plain
  obtain ⟨⟨unsigned, shorts⟩, longs⟩ := plain
  rw [unnamed, unsigned, shorts, longs]
  rfl

end Specifiers

namespace DeclarationReader

theorem specifierStep_builtin {word : String} (builtin : Builtin word)
    (context : DeclarationContext) (s : Specifiers) :
    specifierStep false context s word =
      if (BaseType.ofWord? word).isSome ∧ s.base.isSome then .refuse "conflicting type specifiers"
      else .take (s.noting word) := by
  obtain ⟨isTypedef, signed, shorts, longs, base⟩ := s
  have each : ∀ w ∈ builtinWords ++ ignoredWords, specifierStep false context
      ⟨isTypedef, signed, shorts, longs, base⟩ w =
        if (BaseType.ofWord? w).isSome ∧ base.isSome then .refuse "conflicting type specifiers"
        else .take (Specifiers.noting ⟨isTypedef, signed, shorts, longs, base⟩ w) := by
    cases base <;>
      simp [builtinWords, ignoredWords, specifierStep, Specifiers.noting, sign?, BaseType.ofWord?]
  exact each word builtin

def behind (r : DeclarationReader) (n : Nat) : DeclarationReader :=
  { r with rest := r.rest.drop n }

theorem tokens_behind (r : DeclarationReader) (n : Nat) :
    (r.behind n).tokens = r.tokens.drop n := List.map_drop

theorem behind_behind (r : DeclarationReader) (m n : Nat) :
    (r.behind m).behind n = r.behind (m + n) :=
  congrArg (fun rest => { r with rest := rest }) List.drop_drop

theorem peek?_of_tokens {r : DeclarationReader} {t : CToken} {tokens : List CToken}
    (front : r.tokens = t :: tokens) : r.peek? = some t := by
  rw [peek?_eq, front]
  rfl

section Words

variable {r : DeclarationReader} {words : List String} {tokens : List CToken}

theorem specifiers_word {word : String} (front : r.tokens = .word word :: tokens)
    (builtin : Builtin word) (fuel : Nat) (s : Specifiers) :
    (specifiers false (fuel + 1) s).run r =
      if (BaseType.ofWord? word).isSome ∧ s.base.isSome then
        (fail "conflicting type specifiers").run r
      else (specifiers false fuel (s.noting word)).run (r.behind 1) := by
  rw [specifiers, StateT.run_bind, StateT.run_get, pure_bind, peek?_of_tokens front]
  dsimp only
  rw [StateT.run_bind, StateT.run_get, pure_bind, specifierStep_builtin builtin]
  by_cases conflict : (BaseType.ofWord? word).isSome ∧ s.base.isSome
  · rw [if_pos conflict, if_pos conflict]
  · rw [if_neg conflict, if_neg conflict]
    rfl

theorem length_bases_cons (word : String) (words : List String) :
    (bases (word :: words)).length =
      (BaseType.ofWord? word).toList.length + (bases words).length := by
  rw [bases, List.filterMap_cons]
  cases BaseType.ofWord? word with
  | none => simp [bases]
  | some base => rw [List.length_cons, Option.toList_some, List.length_singleton, bases]; omega

theorem noting_base {s : Specifiers} {word : String}
    (apart : ¬ ((BaseType.ofWord? word).isSome ∧ s.base.isSome)) :
    (s.noting word).base.toList.length =
      (BaseType.ofWord? word).toList.length + s.base.toList.length := by
  rw [Specifiers.noting]
  cases known : BaseType.ofWord? word with
  | none => simp
  | some base =>
    rw [known] at apart
    cases before : s.base with
    | none => rfl
    | some other => exact absurd ⟨rfl, by rw [before]; rfl⟩ apart

/-- At most one word of the list says what kind of type it is, if none did before. -/
theorem specifiers_words (front : r.tokens = words.map .word ++ tokens)
    (builtin : ∀ w ∈ words, Builtin w) (fuel : Nat) {s : Specifiers}
    (single : (bases words).length + s.base.toList.length ≤ 1) :
    (specifiers false (words.length + fuel) s).run r =
      (specifiers false fuel (words.foldl Specifiers.noting s)).run (r.behind words.length) := by
  induction words generalizing r s with
  | nil =>
    rw [List.length_nil, Nat.zero_add]
    rfl
  | cons word rest ih =>
    obtain ⟨first, others⟩ := List.forall_mem_cons.1 builtin
    rw [length_bases_cons] at single
    -- Either this word names no type, or none did before.
    have apart : ¬ ((BaseType.ofWord? word).isSome ∧ s.base.isSome) := by
      rintro ⟨left, right⟩
      rw [Option.isSome_iff_exists] at left right
      obtain ⟨base, left⟩ := left
      obtain ⟨other, right⟩ := right
      rw [left, right] at single
      simp at single
    have noted := noting_base apart
    have left : (r.behind 1).tokens = rest.map .word ++ tokens := by
      rw [tokens_behind, front]
      rfl
    have more : (word :: rest).length + fuel = rest.length + fuel + 1 := by
      rw [List.length_cons]
      omega
    rw [more, specifiers_word front first, if_neg apart, ih left others (by omega), behind_behind,
      List.length_cons, Nat.add_comm 1]
    rfl

theorem specifiers_conflict (front : r.tokens = words.map .word ++ tokens)
    (builtin : ∀ w ∈ words, Builtin w) (fuel : Nat) {s : Specifiers}
    (several : 2 ≤ (bases words).length + s.base.toList.length) :
    ∃ e, (specifiers false (words.length + fuel) s).run r = .error e := by
  induction words generalizing r s with
  | nil =>
    cases before : s.base <;> simp [before, bases] at several
  | cons word rest ih =>
    obtain ⟨first, others⟩ := List.forall_mem_cons.1 builtin
    rw [length_bases_cons] at several
    have left : (r.behind 1).tokens = rest.map .word ++ tokens := by
      rw [tokens_behind, front]
      rfl
    have more : (word :: rest).length + fuel = rest.length + fuel + 1 := by
      rw [List.length_cons]
      omega
    rw [more, specifiers_word front first]
    split
    next => exact ⟨_, rfl⟩
    next apart =>
      have noted := noting_base apart
      exact ih left others (by omega)

theorem ofWord?_free {x : String} (free : Free x) : BaseType.ofWord? x = none := by
  unfold BaseType.ofWord?
  split
  all_goals first | rfl | exact absurd (by decide) free.1

theorem specifierStep_free {x : String} (free : Free x) (allowTypedef : Bool)
    (context : DeclarationContext) (s : Specifiers) : specifierStep allowTypedef context s x =
      if s.base.isNone && !s.hasModifiers then
        .take { s with base := some (.other ((standardType? x context.addressSize).getD
          (.named x ((context.known.get? x).getD 0)))) }
      else .stop := by
  have unknown := ofWord?_free free
  obtain ⟨unbuilt, other⟩ := free
  simp only [Builtin, builtinWords, List.mem_append, List.mem_cons, List.not_mem_nil, or_false,
    not_or] at unbuilt other
  obtain ⟨⟨signed, unsigned, short, long, -⟩, ignored⟩ := unbuilt
  obtain ⟨typedef, union, struct, enum⟩ := other
  rw [specifierStep, if_neg typedef, if_neg (by simpa using ignored), if_neg signed,
    if_neg unsigned, if_neg short, if_neg long, if_neg union, if_neg (by simp [struct, enum]),
    unknown]

theorem specifiers_stop {x : String} (free : Free x) (front : r.peek? = some (.word x))
    (allowTypedef : Bool) (fuel : Nat) {s : Specifiers}
    (specified : s.base.isSome ∨ s.hasModifiers) :
    (specifiers allowTypedef (fuel + 1) s).run r = (finishSpecifiers s).run r := by
  have stops : ¬ (s.base.isNone && !s.hasModifiers) = true := by
    cases base : s.base <;> simp_all
  rw [specifiers, StateT.run_bind, StateT.run_get, pure_bind, front]
  dsimp only
  rw [StateT.run_bind, StateT.run_get, pure_bind, specifierStep_free free, if_neg stops]

theorem specifiers_named {x : String} (free : Free x) (front : r.tokens = [.word x]) (fuel : Nat) :
    (specifiers false (fuel + 2) .none).run r =
      .ok (((standardType? x r.context.addressSize).getD
        (.named x ((r.context.known.get? x).getD 0)), false), r.behind 1) := by
  have ended : (r.behind 1).peek? = none := by rw [peek?_eq, tokens_behind, front]; rfl
  rw [specifiers, StateT.run_bind, StateT.run_get, pure_bind, peek?_of_tokens front]
  dsimp only
  have unspecified : (Specifiers.none.base.isNone && !Specifiers.none.hasModifiers) = true := rfl
  rw [StateT.run_bind, StateT.run_get, pure_bind, specifierStep_free free, if_pos unspecified]
  show (specifiers false (fuel + 1) _).run (r.behind 1) = _
  rw [specifiers, StateT.run_bind, StateT.run_get, pure_bind, ended]
  rfl

theorem run_finishSpecifiers (s : Specifiers) (r : DeclarationReader) :
    (∀ type, s.type r.context.addressSize = .ok type →
        (finishSpecifiers s).run r = .ok ((type, s.isTypedef), r)) ∧
      ∀ what, s.type r.context.addressSize = .error what →
        (finishSpecifiers s).run r = (fail what).run r := by
  refine ⟨fun type made => ?_, fun what made => ?_⟩
  · rw [finishSpecifiers, StateT.run_bind, StateT.run_get, pure_bind, made]
    rfl
  · rw [finishSpecifiers, StateT.run_bind, StateT.run_get, pure_bind, made]

/-- A name with nothing of a declarator behind it. -/
theorem declarator_name {x : String} (front : r.tokens = .word x :: tokens)
    (ends : tokens.head? = none ∨ tokens.head? = some (.mark ';')) (base : DataType) (fuel : Nat) :
    (declarator base (fuel + 2)).run r = .ok ((base, some x), r.behind 1) := by
  obtain ⟨rest, stop, context, types⟩ := r
  obtain ⟨⟨_, offset⟩, others, rfl, rfl, rfl⟩ := List.map_eq_cons_iff.1 front
  cases others with
  | nil => rfl
  | cons next _ =>
    obtain ⟨token, _⟩ := next
    obtain none | mark := ends
    · cases none
    · obtain rfl := Option.some.inj mark
      rfl

theorem declarator_nothing (front : r.tokens = []) (base : DataType) (fuel : Nat) :
    (declarator base (fuel + 2)).run r = .ok ((base, none), r) := by
  obtain ⟨rest, stop, context, types⟩ := r
  obtain rfl := List.map_eq_nil_iff.1 front
  rfl

theorem run_soleDeclaration {fuel : Nat} {base type : DataType} {isTypedef : Bool}
    {name : Option String} {mid last : DeclarationReader}
    (specified : (specifiers false fuel .none).run r = .ok ((base, isTypedef), mid))
    (declared : (declarator base fuel).run mid = .ok ((type, name), last))
    (ended : last.tokens = []) :
    (soleDeclaration fuel).run r =
      (match name <|> tagOf type with
        | none => fail "declaration has no name"
        | some name => do pure (type, ← qualify name)).run last := by
  rw [soleDeclaration, run_bind_ok specified, run_bind_ok declared]
  obtain ⟨rest, stop, context, types⟩ := last
  obtain rfl := List.map_eq_nil_iff.1 ended
  rfl

end Words

theorem tagOf_standardType {name : String} {addressSize : Word} {type : DataType}
    (standard : standardType? name addressSize = some type) : tagOf type = none := by
  unfold standardType? at standard
  split at standard
  all_goals first | exact Option.some.inj standard ▸ rfl | cases standard

end DeclarationReader

/-- The type that built-in words give a free word behind them, if they give one. -/
def typeOfWords? (context : DeclarationContext) (words : List String) (x : String) :
    Option DataType :=
  if 2 ≤ (bases words).length then none
  else if (Specifiers.ofWords words).base.isSome ∨ (Specifiers.ofWords words).hasModifiers then
    ((Specifiers.ofWords words).type context.addressSize).toOption
  else if (DeclarationReader.standardType? x context.addressSize).isSome then none
  else some (.named x ((context.known.get? x).getD 0))

section Closed

variable {words : List String} {x : String}

open DeclarationReader

theorem soleDeclaration_words {r : DeclarationReader}
    (front : r.tokens = words.map .word ++ [.word x]) (builtin : ∀ w ∈ words, Builtin w)
    (free : Free x) (fuel : Nat) :
    ((soleDeclaration (words.length + (fuel + 2))).run r).toOption.map (·.1) =
      (typeOfWords? r.context words x).bind fun type =>
        (QualifiedName.parse x).toOption.map (type, ·) := by
  rw [typeOfWords?]
  by_cases several : 2 ≤ (bases words).length
  · obtain ⟨e, refused⟩ := specifiers_conflict front builtin (fuel + 2) (s := .none) several
    rw [if_pos several, soleDeclaration, run_bind_error refused]
    rfl
  rw [if_neg several]
  have left : (r.behind words.length).tokens = [.word x] := by
    rw [tokens_behind, front, List.drop_left' (List.length_map _)]
  have last : (r.behind words.length).behind 1 = r.behind (words.length + 1) :=
    behind_behind r words.length 1
  have ended : (r.behind (words.length + 1)).tokens = [] := by
    rw [← last, tokens_behind, left]
    rfl
  have noted : (specifiers false (words.length + (fuel + 2)) .none).run r =
      (specifiers false (fuel + 2) (Specifiers.ofWords words)).run (r.behind words.length) :=
    specifiers_words front builtin (fuel + 2) (Nat.lt_succ_iff.1 (Nat.lt_of_not_le several))
  have named (type : DataType) (s : DeclarationReader) :
      ((do pure (type, ← qualify x) : Reading (DataType × QualifiedName)).run s).toOption.map
        (·.1) = (QualifiedName.parse x).toOption.map (type, ·) := by
    rw [qualify]
    cases QualifiedName.parse x <;> rfl
  by_cases specified : (Specifiers.ofWords words).base.isSome ∨
      (Specifiers.ofWords words).hasModifiers
  · -- The specifiers end before the name.
    rw [if_pos specified]
    rw [specifiers_stop free (peek?_of_tokens left) false (fuel + 1) specified] at noted
    have finished := run_finishSpecifiers (Specifiers.ofWords words) (r.behind words.length)
    cases made : (Specifiers.ofWords words).type r.context.addressSize with
    | error what =>
      have refused := finished.2 what made
      rw [← noted] at refused
      rw [soleDeclaration, run_bind_error refused]
      rfl
    | ok type =>
      have given := finished.1 type made
      rw [← noted] at given
      have declared := declarator_name left (.inl rfl) type (words.length + fuel)
      rw [last] at declared
      rw [run_soleDeclaration given declared ended]
      exact named type _
  · -- The name is taken for the type, and for the name of what is declared since none follows.
    have blank := Specifiers.ofWords_blank specified
    have given : (specifiers false (fuel + 2) .none).run (r.behind words.length) =
        .ok (((standardType? x r.context.addressSize).getD
          (.named x ((r.context.known.get? x).getD 0)), false), r.behind (words.length + 1)) :=
      last ▸ specifiers_named free left fuel
    have declared (type : DataType) := declarator_nothing ended type (words.length + fuel)
    rw [blank, given] at noted
    rw [if_neg specified, run_soleDeclaration noted (declared _) ended]
    cases standard : standardType? x r.context.addressSize with
    | some type =>
      rw [Option.getD_some, tagOf_standardType standard]
      rfl
    | none => exact named _ _

theorem parseType_words (context : DeclarationContext) {text : String}
    (builtin : ∀ w ∈ words, Builtin w) (free : Free x)
    (spelled : CToken.Spells text (words.map .word ++ [.word x])) :
    (context.parseType text).toOption = (typeOfWords? context words x).bind fun type =>
      (QualifiedName.parse x).toOption.map (type, ·) := by
  obtain ⟨placed, lexed, tokens⟩ := (CToken.lex_eq_ok_iff text _).2 spelled
  let r : DeclarationReader := ⟨placed, text.utf8ByteSize, context, []⟩
  obtain ⟨fuel, enough⟩ : ∃ fuel, fuelFor placed = words.length + (fuel + 2) := by
    have size := congrArg List.length tokens
    simp only [List.length_map, List.length_append, List.length_singleton] at size
    exact ⟨7 * words.length + 14, by rw [fuelFor]; omega⟩
  have run := soleDeclaration_words (r := r) tokens builtin free fuel
  rw [← enough, ← run_singleDeclaration r] at run
  rw [DeclarationContext.parseType, start, lexed, ← run]
  show Except.toOption (Prod.fst <$> (singleDeclaration).run r) = _
  cases (singleDeclaration).run r <;> rfl

end Closed

section Order

/-- Words that contradict each other, in whatever order they stand. -/
inductive Clashing (words : List String) : Prop where
  | kinds (several : 2 ≤ (bases words).length)
  | lengths (short : "short" ∈ words) (long : "long" ∈ words)
  | plain {base : BaseType} {word : String} (kind : base ∈ [.void, .bool, .float])
      (named : base ∈ bases words) (modifies : word ∈ ["signed", "unsigned", "short", "long"])
      (modified : word ∈ words)
  | double {word : String} (named : .double ∈ bases words)
      (modifies : word ∈ ["signed", "unsigned", "short"]) (modified : word ∈ words)
  | char {word : String} (named : .char ∈ bases words) (modifies : word ∈ ["short", "long"])
      (modified : word ∈ words)

/-- Specifiers that differ at most in the sign, and both have one or none. -/
structure SameButSign (s s' : Specifiers) : Prop where
  signed : s.signed.isSome = s'.signed.isSome
  shorts : s.shorts = s'.shorts
  longs : s.longs = s'.longs
  base : s.base = s'.base

theorem type_of_signed (shorts longs : Nat) (base : Option BaseType) (addressSize : Word) :
    ∃ width : Option Word, ∀ isTypedef signed,
      ((⟨isTypedef, some signed, shorts, longs, base⟩ : Specifiers).type addressSize).toOption =
        width.map (.integer · signed) := by
  have integer (base : Option BaseType) : ∃ width : Option Word, ∀ isTypedef signed,
      (⟨isTypedef, some signed, shorts, longs, base⟩ : Specifiers).integer? addressSize =
        width.map (.integer · signed) :=
    ⟨if longs = 0 then some (if shorts = 0 then 4 else 2) else if shorts ≠ 0 then none
      else if longs = 1 ∧ addressSize < 8 then some 4 else some 8, fun _ _ => rfl⟩
  match base with
  | none | some .int =>
    obtain ⟨width, made⟩ := integer _
    refine ⟨width, fun isTypedef signed => ?_⟩
    unfold Specifiers.type
    rw [made]
    cases width <;> rfl
  | some .char =>
    refine ⟨if shorts = 0 ∧ longs = 0 then some 1 else none, fun isTypedef signed => ?_⟩
    unfold Specifiers.type
    dsimp only
    split <;> rfl
  | some .void | some .bool | some .float | some .double | some (.other _) =>
    exact ⟨none, fun isTypedef signed => rfl⟩

theorem SameButSign.type {s s' : Specifiers} (same : SameButSign s s') (addressSize : Word) :
    ((s.type addressSize).toOption.isSome ↔ (s'.type addressSize).toOption.isSome) ∧
      ∀ t t', (s.type addressSize).toOption = some t → (s'.type addressSize).toOption = some t' →
        (t = t' ↔ s.signed = s'.signed) := by
  obtain ⟨isTypedef, signed, shorts, longs, base⟩ := s
  obtain ⟨isTypedef', signed', shorts', longs', base'⟩ := s'
  obtain ⟨signs, rfl, rfl, rfl⟩ := same
  obtain ⟨width, made⟩ := type_of_signed shorts longs base addressSize
  cases signed with
  | none =>
    cases signed' with
    | some _ => cases signs
    | none =>
      refine ⟨Iff.rfl, fun t t' given given' => iff_of_true ?_ rfl⟩
      exact Option.some.inj (given.symm.trans given')
  | some sign =>
    cases signed' with
    | none => cases signs
    | some sign' =>
      rw [made, made]
      cases width with
      | none => exact ⟨Iff.rfl, nofun⟩
      | some width =>
        refine ⟨Iff.rfl, ?_⟩
        rintro _ _ ⟨⟩ ⟨⟩
        simp

/-- The words say the same in any order, but for the sign, which the last one of those says. -/
theorem ofWords_perm {words words' : List String} (perm : words.Perm words')
    (single : ¬ 2 ≤ (bases words).length) :
    SameButSign (.ofWords words) (.ofWords words') := by
  rw [Specifiers.ofWords_eq, Specifiers.ofWords_eq]
  refine ⟨?_, perm.count_eq _, perm.count_eq _, ?_⟩
  · have signs := perm.filterMap sign?
    rw [Bool.eq_iff_iff, lastSign, lastSign, List.getLast?_isSome, List.getLast?_isSome, ne_eq,
      ne_eq, ← List.length_eq_zero_iff, ← List.length_eq_zero_iff, signs.length_eq]
  · have kinds : (bases words).Perm (bases words') := perm.filterMap BaseType.ofWord?
    match found : bases words, single with
    | [], _ =>
      rw [found] at kinds
      rw [List.nil_perm.1 kinds]
    | [base], _ =>
      rw [found] at kinds
      rw [List.singleton_perm.1 kinds]
    | _ :: _ :: _, single => exact absurd (by simp) single

theorem typeOfWords?_perm {words words' : List String} (perm : words.Perm words')
    (context : DeclarationContext) (x : String) :
    ((typeOfWords? context words x).isSome ↔ (typeOfWords? context words' x).isSome) ∧
      ∀ t t', typeOfWords? context words x = some t → typeOfWords? context words' x = some t' →
        (t = t' ↔ lastSign words = lastSign words') := by
  have kinds : (bases words).length = (bases words').length :=
    (perm.filterMap BaseType.ofWord?).length_eq
  rw [typeOfWords?, typeOfWords?, ← kinds]
  by_cases several : 2 ≤ (bases words).length
  · rw [if_pos several, if_pos several]
    exact ⟨Iff.rfl, nofun⟩
  have same := ofWords_perm perm several
  have modifiers : (Specifiers.ofWords words).hasModifiers =
      (Specifiers.ofWords words').hasModifiers := by
    rw [Specifiers.hasModifiers, Specifiers.hasModifiers, same.signed, same.shorts, same.longs]
  have sign (words : List String) : lastSign words = (Specifiers.ofWords words).signed := by
    rw [Specifiers.ofWords_eq]
  rw [if_neg several, if_neg several, same.base, modifiers, sign, sign]
  by_cases specified : (Specifiers.ofWords words').base.isSome ∨
      (Specifiers.ofWords words').hasModifiers
  · rw [if_pos specified, if_pos specified]
    exact same.type context.addressSize
  · rw [if_neg specified, if_neg specified]
    refine ⟨Iff.rfl, fun t t' given given' => iff_of_true ?_ ?_⟩
    · exact Option.some.inj (given.symm.trans given')
    · have blank := Specifiers.ofWords_blank specified
      rw [← same.base, ← modifiers] at specified
      rw [blank, Specifiers.ofWords_blank specified]

end Order

section Verdict

/-- The specifiers make a type, if they are any. -/
def Fits (s : Specifiers) : Prop :=
  match s.base with
  | none | some .int => s.shorts = 0 ∨ s.longs = 0
  | some .char => s.shorts = 0 ∧ s.longs = 0
  | some .double => s.signed = none ∧ s.shorts = 0
  | some _ => s.hasModifiers = false

theorem integer?_isSome_iff (s : Specifiers) (addressSize : Word) :
    (s.integer? addressSize).isSome ↔ s.shorts = 0 ∨ s.longs = 0 := by
  unfold Specifiers.integer?
  rw [Option.isSome_map]
  by_cases longs : s.longs = 0
  · simp [longs]
  · by_cases shorts : s.shorts = 0
    · rw [if_neg longs, if_neg (not_not.2 shorts)]
      split <;> simp [shorts]
    · simp [longs, shorts]

theorem type_isSome_iff {s : Specifiers} (specified : s.base.isSome ∨ s.hasModifiers)
    (addressSize : Word) : (s.type addressSize).toOption.isSome ↔ Fits s := by
  have integer := integer?_isSome_iff s addressSize
  obtain ⟨isTypedef, signed, shorts, longs, base⟩ := s
  unfold Specifiers.type Fits
  match base with
  | none =>
    obtain named | modified := specified
    · cases named
    · dsimp only at integer ⊢
      rw [if_pos modified, ← integer]
      cases (Specifiers.integer? _ addressSize) <;> exact Iff.rfl
  | some .int =>
    dsimp only at integer ⊢
    rw [← integer]
    cases (Specifiers.integer? _ addressSize) <;> exact Iff.rfl
  | some .char =>
    dsimp only
    split
    next fits => exact iff_of_true rfl fits
    next unfit => exact iff_of_false Bool.false_ne_true unfit
  | some .double =>
    dsimp only
    split
    next fits => exact iff_of_true rfl (by simpa using fits)
    next unfit => exact iff_of_false Bool.false_ne_true (by simpa using unfit)
  | some .void | some .bool | some .float | some (.other _) =>
    dsimp only
    split
    next modified => exact iff_of_false Bool.false_ne_true (by simp [modified])
    next plain => exact iff_of_true rfl (by simpa using plain)

section Counted

/-! What the specifiers say of words tells which words there are. -/

variable {words : List String}

theorem lastSign_eq_none_iff :
    lastSign words = none ↔ "signed" ∉ words ∧ "unsigned" ∉ words := by
  rw [lastSign, List.getLast?_eq_none_iff, List.filterMap_eq_nil_iff]
  constructor
  · intro silent
    exact ⟨fun member => (by cases silent "signed" member),
      fun member => (by cases silent "unsigned" member)⟩
  · rintro ⟨signed, unsigned⟩ w member
    have other : w ≠ "signed" ∧ w ≠ "unsigned" :=
      ⟨fun same => signed (same ▸ member), fun same => unsigned (same ▸ member)⟩
    rw [sign?, if_neg other.1, if_neg other.2]

theorem sign_iff : (Specifiers.ofWords words).signed = none ↔
    "signed" ∉ words ∧ "unsigned" ∉ words := by
  rw [Specifiers.ofWords_eq, lastSign_eq_none_iff]

theorem short_iff : (Specifiers.ofWords words).shorts = 0 ↔ "short" ∉ words := by
  rw [Specifiers.ofWords_eq]
  exact List.count_eq_zero

theorem long_iff : (Specifiers.ofWords words).longs = 0 ↔ "long" ∉ words := by
  rw [Specifiers.ofWords_eq]
  exact List.count_eq_zero

theorem hasModifiers_eq_false_iff : (Specifiers.ofWords words).hasModifiers = false ↔
    ∀ w ∈ ["signed", "unsigned", "short", "long"], w ∉ words := by
  rw [Specifiers.ofWords_eq, Specifiers.hasModifiers]
  simp only [Bool.or_eq_false_iff, decide_eq_false_iff_not, Nat.not_lt, Nat.le_zero,
    List.count_eq_zero, Option.isSome_eq_false_iff, Option.isNone_iff_eq_none,
    lastSign_eq_none_iff, List.forall_mem_cons, and_assoc]
  simp

theorem base_of_mem (single : ¬ 2 ≤ (bases words).length) {base : BaseType}
    (named : base ∈ bases words) : (Specifiers.ofWords words).base = some base := by
  rw [Specifiers.ofWords_eq]
  match found : bases words, single with
  | [other], _ =>
    rw [found] at named
    rw [List.mem_singleton.1 named]
    rfl
  | [], _ => rw [found] at named; cases named
  | _ :: _ :: _, single => exact absurd (by simp) single

end Counted

theorem Fits.unclashing {words : List String} (single : ¬ 2 ≤ (bases words).length)
    (fits : Fits (.ofWords words)) : ¬ Clashing words := by
  rw [Fits] at fits
  intro clash
  cases clash with
  | kinds several => exact single several
  | lengths short long =>
    have unshort := mt short_iff.1 (not_not.2 short)
    have unlong := mt long_iff.1 (not_not.2 long)
    split at fits
    · exact fits.elim unshort unlong
    · exact fits.elim unshort unlong
    · exact unshort fits.1
    · exact unshort fits.2
    · exact hasModifiers_eq_false_iff.1 fits "short" (by simp) short
  | plain kind named modifies modified =>
    rw [base_of_mem single named] at fits
    have unmodified : (Specifiers.ofWords words).hasModifiers = false := by
      simp only [List.mem_cons, List.not_mem_nil, or_false] at kind
      obtain rfl | rfl | rfl := kind <;> exact fits
    exact hasModifiers_eq_false_iff.1 unmodified _ modifies modified
  | double named modifies modified =>
    rw [base_of_mem single named] at fits
    obtain ⟨unsigned, unshort⟩ := fits
    simp only [List.mem_cons, List.not_mem_nil, or_false] at modifies
    obtain rfl | rfl | rfl := modifies
    · exact (sign_iff.1 unsigned).1 modified
    · exact (sign_iff.1 unsigned).2 modified
    · exact short_iff.1 unshort modified
  | char named modifies modified =>
    rw [base_of_mem single named] at fits
    obtain ⟨unshort, unlong⟩ := fits
    simp only [List.mem_cons, List.not_mem_nil, or_false] at modifies
    obtain rfl | rfl := modifies
    · exact short_iff.1 unshort modified
    · exact long_iff.1 unlong modified

theorem Fits.of_unclashing {words : List String} (unclashing : ¬ Clashing words) :
    Fits (.ofWords words) := by
  have single : ¬ 2 ≤ (bases words).length := fun several => unclashing (.kinds several)
  have lengths : (Specifiers.ofWords words).shorts = 0 ∨ (Specifiers.ofWords words).longs = 0 := by
    by_contra both
    obtain ⟨short, long⟩ := not_or.1 both
    exact unclashing (.lengths (not_not.1 (mt short_iff.2 short)) (not_not.1 (mt long_iff.2 long)))
  rw [Fits]
  match found : bases words, single with
  | [], _ =>
    have unnamed : (Specifiers.ofWords words).base = none := by
      rw [Specifiers.ofWords_eq, found]
      rfl
    rw [unnamed]
    exact lengths
  | [base], _ =>
    have named : base ∈ bases words := by rw [found]; exact List.mem_cons_self
    have known : (Specifiers.ofWords words).base = some base := by
      rw [Specifiers.ofWords_eq, found]
      rfl
    rw [known]
    cases base with
    | int => exact lengths
    | char =>
      have unmodified : ∀ w ∈ ["short", "long"], w ∉ words := fun w modifies modified =>
        unclashing (.char named modifies modified)
      exact ⟨short_iff.2 (unmodified _ (by simp)), long_iff.2 (unmodified _ (by simp))⟩
    | double =>
      have unmodified : ∀ w ∈ ["signed", "unsigned", "short"], w ∉ words :=
        fun w modifies modified => unclashing (.double named modifies modified)
      exact ⟨sign_iff.2 ⟨unmodified _ (by simp), unmodified _ (by simp)⟩,
        short_iff.2 (unmodified _ (by simp))⟩
    | void | bool | float =>
      exact hasModifiers_eq_false_iff.2 fun w modifies modified =>
        unclashing (.plain (by simp) named modifies modified)
    | other type =>
      obtain ⟨w, -, known⟩ := List.mem_filterMap.1 named
      exact absurd rfl (DeclarationReader.ofWord?_ne_other known type)
  | _ :: _ :: _, single => exact absurd (by simp) single

theorem specified_of_word {words : List String} (builtin : ∀ w ∈ words, Builtin w)
    (some_word : ∃ w ∈ words, w ∉ DeclarationReader.ignoredWords) :
    (Specifiers.ofWords words).base.isSome ∨ (Specifiers.ofWords words).hasModifiers := by
  obtain ⟨w, member, solid⟩ := some_word
  by_contra unspecified
  obtain ⟨unnamed, plain⟩ := not_or.1 unspecified
  have unmodified := hasModifiers_eq_false_iff.1 (Bool.not_eq_true _ ▸ plain)
  have no_kind : BaseType.ofWord? w = none := by
    rw [Specifiers.ofWords_eq, Option.not_isSome_iff_eq_none, List.getLast?_eq_none_iff] at unnamed
    exact List.filterMap_eq_nil_iff.1 unnamed w member
  have built : w ∈ ["signed", "unsigned", "short", "long"] ++
      ["void", "bool", "_Bool", "char", "int", "float", "double"] :=
    (List.mem_append.1 (builtin w member)).resolve_right solid
  have kinds : ∀ w ∈ ["void", "bool", "_Bool", "char", "int", "float", "double"],
      BaseType.ofWord? w ≠ none := by decide
  obtain modifies | kind := List.mem_append.1 built
  · exact unmodified w modifies member
  · exact kinds w kind no_kind

theorem typeOfWords?_isSome {words : List String} (builtin : ∀ w ∈ words, Builtin w)
    (context : DeclarationContext) (x : String) :
    (Clashing words → typeOfWords? context words x = none) ∧
      ((∃ w ∈ words, w ∉ DeclarationReader.ignoredWords) → ¬ Clashing words →
        (typeOfWords? context words x).isSome) := by
  rw [typeOfWords?]
  by_cases several : 2 ≤ (bases words).length
  · rw [if_pos several]
    exact ⟨fun _ => rfl, fun _ unclashing => absurd (.kinds several) unclashing⟩
  rw [if_neg several]
  by_cases specified : (Specifiers.ofWords words).base.isSome ∨
      (Specifiers.ofWords words).hasModifiers
  · have verdict := type_isSome_iff specified context.addressSize
    rw [if_pos specified]
    refine ⟨fun clash => ?_, fun _ unclashing => verdict.2 (.of_unclashing unclashing)⟩
    exact Option.not_isSome_iff_eq_none.1 fun made => (verdict.1 made).unclashing several clash
  · refine ⟨fun clash => ?_, fun solid => absurd (specified_of_word builtin solid) specified⟩
    have fits : Fits (.ofWords words) := by
      rw [Specifiers.ofWords_blank specified]
      exact .inl rfl
    exact absurd clash (fits.unclashing several)

end Verdict

namespace DeclarationContext

/-- In which order the words of a built-in type stand decides neither whether they are accepted nor,
as long as the same one of those for the sign comes last, what type they make. Words that clash are
refused in any order, and all others make a type. -/
theorem parseType_words_order (context : DeclarationContext) {words words' : List String}
    {x text text' : String} (builtin : ∀ w ∈ words, Builtin w) (free : Free x)
    (perm : words.Perm words')
    (spelled : CToken.Spells text (words.map .word ++ [.word x]))
    (spelled' : CToken.Spells text' (words'.map .word ++ [.word x])) :
    ((∃ d, context.parseType text = .ok d) ↔ ∃ d, context.parseType text' = .ok d) ∧
      (∀ d d', context.parseType text = .ok d → context.parseType text' = .ok d' →
        (d = d' ↔ lastSign words = lastSign words')) ∧
      (Clashing words → ∀ d, context.parseType text ≠ .ok d) ∧
      ((∃ w ∈ words, w ∉ DeclarationReader.ignoredWords) → ¬ Clashing words →
        ∃ d, context.parseType text = .ok d) := by
  have read := CToken.read?_words spelled (List.mem_append_right _ (List.mem_singleton_self _))
  obtain ⟨q, named, -⟩ := read
  -- What is read is the type that the words make, with the name.
  have given {words : List String} {text : String} (builtin : ∀ w ∈ words, Builtin w)
      (spelled : CToken.Spells text (words.map .word ++ [.word x])) (d : DataType × QualifiedName) :
      context.parseType text = .ok d ↔ ∃ t, typeOfWords? context words x = some t ∧ d = (t, q) := by
    have whole := parseType_words context builtin free spelled
    rw [named] at whole
    cases made : typeOfWords? context words x with
    | none =>
      rw [made] at whole
      refine ⟨fun parsed => ?_, nofun⟩
      rw [parsed] at whole
      cases whole
    | some t =>
      rw [made] at whole
      rw [CToken.eq_ok_of_toOption whole]
      constructor
      · intro parsed
        exact ⟨t, rfl, (Except.ok.inj parsed).symm⟩
      · rintro ⟨_, ⟨⟩, rfl⟩
        rfl
  have builtin' : ∀ w ∈ words', Builtin w := fun w member => builtin w (perm.mem_iff.2 member)
  obtain ⟨same, signs⟩ := typeOfWords?_perm perm context x
  obtain ⟨refused, accepted⟩ := typeOfWords?_isSome builtin context x
  refine ⟨?_, ?_, ?_, ?_⟩
  · constructor
    · rintro ⟨d, parsed⟩
      obtain ⟨t, made, -⟩ := (given builtin spelled d).1 parsed
      obtain ⟨t', made'⟩ := Option.isSome_iff_exists.1 (same.1 (by rw [made]; rfl))
      exact ⟨_, (given builtin' spelled' _).2 ⟨t', made', rfl⟩⟩
    · rintro ⟨d, parsed⟩
      obtain ⟨t, made, -⟩ := (given builtin' spelled' d).1 parsed
      obtain ⟨t', made'⟩ := Option.isSome_iff_exists.1 (same.2 (by rw [made]; rfl))
      exact ⟨_, (given builtin spelled _).2 ⟨t', made', rfl⟩⟩
  · intro d d' parsed parsed'
    obtain ⟨t, made, rfl⟩ := (given builtin spelled d).1 parsed
    obtain ⟨t', made', rfl⟩ := (given builtin' spelled' d').1 parsed'
    rw [← signs t t' made made', Prod.mk.injEq]
    exact and_iff_left rfl
  · intro clash d parsed
    obtain ⟨t, made, -⟩ := (given builtin spelled d).1 parsed
    cases (refused clash).symm.trans made
  · intro some_word unclashing
    obtain ⟨t, made⟩ := Option.isSome_iff_exists.1 (accepted some_word unclashing)
    exact ⟨_, (given builtin spelled _).2 ⟨t, made, rfl⟩⟩

def bigText : String := "unsigned const long int/**/long big"

def bigTurned : String := "int long // all\n unsigned long const big"

theorem big_words_order :
    (∃ d, (⟨8, .empty⟩ : DeclarationContext).parseType bigText = .ok d ∧
        (⟨8, .empty⟩ : DeclarationContext).parseType bigTurned = .ok d) ∧
      ∀ d, (⟨8, .empty⟩ : DeclarationContext).parseType "long const int short odd" ≠ .ok d := by
  have spelled : CToken.Spells bigText
      (["unsigned", "const", "long", "int", "long"].map .word ++ [.word "big"]) := by
    decide +kernel
  have turned : CToken.Spells bigTurned
      (["int", "long", "unsigned", "long", "const"].map .word ++ [.word "big"]) := by
    decide +kernel
  have clashing : CToken.Spells "long const int short odd"
      (["long", "const", "int", "short"].map .word ++ [.word "odd"]) := by
    decide +kernel
  have perm : ["unsigned", "const", "long", "int", "long"].Perm
      ["int", "long", "unsigned", "long", "const"] := by decide
  have accepted : ((⟨8, .empty⟩ : DeclarationContext).parseType bigText).toOption.isSome := by
    decide +kernel
  have order := parseType_words_order ⟨8, .empty⟩ (by decide) (by decide) perm spelled turned
  obtain ⟨d, parsed⟩ := Option.isSome_iff_exists.1 accepted
  replace parsed := CToken.eq_ok_of_toOption parsed
  obtain ⟨d', parsed'⟩ := order.1.1 ⟨d, parsed⟩
  obtain rfl := (order.2.1 d d' parsed parsed').2 (by decide)
  have refused := (parseType_words_order ⟨8, .empty⟩ (by decide) (by decide) (.refl _) clashing
    clashing).2.2.1 (.lengths (by decide) (by decide))
  exact ⟨⟨d, parsed, parsed'⟩, refused⟩

/-- With both signs the last one counts, and neither order is refused. -/
theorem both_signs_accepted :
    ["signed", "unsigned", "int"].Perm ["unsigned", "signed", "int"] ∧
      (∃ name, (⟨8, .empty⟩ : DeclarationContext).parseType "signed unsigned int x" =
        .ok (.integer 4 false, name)) ∧
      ∃ name, (⟨8, .empty⟩ : DeclarationContext).parseType "unsigned signed int x" =
        .ok (.integer 4 true, name) := by
  have read : ((⟨8, .empty⟩ : DeclarationContext).parseType "signed unsigned int x").toOption.map
        (·.1) = some (.integer 4 false) ∧
      ((⟨8, .empty⟩ : DeclarationContext).parseType "unsigned signed int x").toOption.map (·.1) =
        some (.integer 4 true) := by
    decide +kernel
  have named {text : String} {type : DataType}
      (made : ((⟨8, .empty⟩ : DeclarationContext).parseType text).toOption.map (·.1) = some type) :
      ∃ name, (⟨8, .empty⟩ : DeclarationContext).parseType text = .ok (type, name) := by
    obtain ⟨⟨_, name⟩, parsed, rfl⟩ := Option.map_eq_some_iff.1 made
    exact ⟨name, CToken.eq_ok_of_toOption parsed⟩
  exact ⟨by decide, named read.1, named read.2⟩

end DeclarationContext

end BinaryAtlas
