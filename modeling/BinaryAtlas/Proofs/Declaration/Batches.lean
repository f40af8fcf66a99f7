import BinaryAtlas.Proofs.Declaration.Agreeing
import BinaryAtlas.Proofs.Declaration.Lexing

/-!
Declarations can be read in batches: what stands behind a line break is read as if it stood alone,
by one who knows the types declared before.
-/

set_option autoImplicit false

namespace BinaryAtlas

namespace Declarations

def nothing : Declarations := ⟨[], [], []⟩

instance : Append Declarations where
  append front back := ⟨front.types ++ back.types, front.dataVariables ++ back.dataVariables,
    front.functions ++ back.functions⟩

theorem append_nothing (found : Declarations) : found ++ nothing = found := by
  show Declarations.mk (_ ++ []) (_ ++ []) (_ ++ []) = found
  rw [List.append_nil, List.append_nil, List.append_nil]

end Declarations

namespace DeclarationReader

section Adding

/-! What is found already is only handed on, with what is found next put behind it. -/

theorem declare_append (isTypedef : Bool) (name : QualifiedName) (type : DataType)
    (front found : Declarations) : declare isTypedef name type (front ++ found) =
      (front ++ ·) <$> declare isTypedef name type found := by
  have data : Declarations.mk (front ++ found).types
      ((front ++ found).dataVariables ++ [(name, type)]) (front ++ found).functions =
        front ++ ⟨found.types, found.dataVariables ++ [(name, type)], found.functions⟩ :=
    congrArg (Declarations.mk _ · _) (List.append_assoc _ _ _)
  have functions : Declarations.mk (front ++ found).types (front ++ found).dataVariables
      ((front ++ found).functions ++ [(name, type)]) =
        front ++ ⟨found.types, found.dataVariables, found.functions ++ [(name, type)]⟩ :=
    congrArg (Declarations.mk _ _) (List.append_assoc _ _ _)
  cases isTypedef with
  | true => rfl
  | false =>
    cases type with
    | function _ _ _ => exact congrArg pure functions
    | _ => exact congrArg pure data

theorem declaredNames_append (base : DataType) (isTypedef : Bool) (fuel : Nat)
    (front found : Declarations) : declaredNames base isTypedef fuel (front ++ found) =
      (front ++ ·) <$> declaredNames base isTypedef fuel found := by
  induction fuel generalizing found with
  | zero => rfl
  | succ fuel ih =>
    rw [declaredNames, declaredNames, map_bind]
    refine bind_congr fun d => ?_
    obtain ⟨type, _ | name⟩ := d
    · rfl
    · show (qualify name >>= _ : Reading Declarations) = _ <$> (qualify name >>= _)
      rw [map_bind]
      refine bind_congr fun q => ?_
      rw [declare_append, map_bind, bind_map_left]
      refine bind_congr fun found => ?_
      rw [map_bind]
      refine bind_congr fun more => ?_
      cases more with
      | true => exact ih found
      | false =>
        show (expect ';' >>= _ : Reading Declarations) = _ <$> (expect ';' >>= _)
        rw [map_bind]
        exact bind_congr fun _ => (map_pure _ _).symm

theorem nextDeclaration_append (fuel : Nat) (front found : Declarations) :
    nextDeclaration fuel (front ++ found) = (front ++ ·) <$> nextDeclaration fuel found := by
  rw [nextDeclaration, nextDeclaration, map_bind]
  refine bind_congr fun empty => ?_
  cases empty with
  | true => exact (map_pure _ _).symm
  | false =>
    show (specifiers true fuel .none >>= _ : Reading Declarations) =
      _ <$> (specifiers true fuel .none >>= _)
    rw [map_bind]
    refine bind_congr fun t => ?_
    obtain ⟨base, isTypedef⟩ := t
    show (eat ';' >>= _ : Reading Declarations) = _ <$> (eat ';' >>= _)
    rw [map_bind]
    refine bind_congr fun alone => ?_
    cases alone with
    | true => exact (map_pure _ _).symm
    | false => exact declaredNames_append base isTypedef fuel front found

theorem declarationList_append (fuel : Nat) (front found : Declarations) :
    declarationList fuel (front ++ found) = (front ++ ·) <$> declarationList fuel found := by
  induction fuel generalizing found with
  | zero => rfl
  | succ fuel ih =>
    rw [declarationList_eq, declarationList_eq, map_bind]
    refine bind_congr fun ended => ?_
    cases ended with
    | true => exact (map_pure _ _).symm
    | false =>
      show nextDeclaration fuel (front ++ found) >>= declarationList fuel =
        _ <$> (nextDeclaration fuel found >>= declarationList fuel)
      rw [nextDeclaration_append, bind_map_left, map_bind]
      exact bind_congr ih

end Adding

/-- A list of declarations that ends where the shared tokens do is read the same where more stands
behind it, and what is read from there on are the declarations behind it. -/
theorem declarationList_passes {o p : Scene} (ended : o.tokens = []) {fuel g : Nat}
    {found whole : Declarations} {r s later : DeclarationReader} (alike : Alike o p r s)
    (shares : Shares o p r) (enough : 4 * r.tokens.length + 4 ≤ fuel)
    (enough' : 4 * s.tokens.length + 4 ≤ g)
    (run : (declarationList fuel found).run r = .ok (whole, later)) :
    ∃ after rest, (declarationList g found).run s = (declarationList rest whole).run after ∧
      Alike o p later after ∧ later.tokens = [] ∧ 4 * after.tokens.length + 4 ≤ rest := by
  induction fuel generalizing g found r s with
  | zero => omega
  | succ fuel ih =>
    obtain ⟨g, rfl⟩ : ∃ k, g = k + 1 := ⟨g - 1, by omega⟩
    have longer := alike.tokens_length
    rw [ended, List.length_nil] at longer
    have step (n : Nat) (t : DeclarationReader) : (declarationList (n + 1) found).run t =
        (if t.rest.isEmpty then pure found
          else nextDeclaration n found >>= declarationList n).run t := by
      rw [declarationList_eq]
      rfl
    have size (t : DeclarationReader) : t.tokens.length = t.rest.length := List.length_map _
    rw [step] at run
    by_cases none_left : r.rest.isEmpty = true
    · rw [if_pos none_left] at run
      obtain ⟨rfl, rfl⟩ := Prod.mk.inj (Except.ok.inj run)
      have empty : r.tokens = [] := by rw [tokens, List.isEmpty_iff.1 none_left]; rfl
      exact ⟨s, g + 1, rfl, alike, empty, enough'⟩
    · rw [if_neg none_left, StateT.run_bind] at run
      have some_left : ¬ s.rest.isEmpty = true := by
        rw [List.isEmpty_iff_length_eq_zero, ← size] at none_left ⊢
        omega
      have round := nextDeclaration_parallel (o := o) (p := p) found
        (show 4 * r.tokens.length + 3 ≤ fuel by omega) (show 4 * r.tokens.length + 3 ≤ g by omega)
        r (Nat.le_refl _) shares
      cases first : (nextDeclaration fuel found).run r with
      | error e => rw [first] at run; cases run
      | ok reached =>
        obtain ⟨next, mid⟩ := reached
        rw [first] at run
        obtain ⟨suffix, taken⟩ := round.takes next mid first
        -- The round stops where the shared tokens end at the latest, and looks no further.
        have within : Within o p 0 mid := .inr (by rw [ended]; exact Nat.zero_le _)
        obtain ⟨after, other, alike_mid⟩ := round.agrees s alike next mid first within
        have longer_mid := alike_mid.tokens_length
        rw [ended, List.length_nil] at longer_mid
        obtain ⟨last, rest, goes, alike_last, all_taken, left⟩ :=
          ih (g := g) alike_mid (shares.later suffix) (by omega) (by omega) run
        refine ⟨last, rest, ?_, alike_last, all_taken, left⟩
        rw [step, if_neg some_left, StateT.run_bind, other]
        exact goes

/-- Words that are read mean the same to whoever knows the same. -/
theorem Shares.of_read {o p : Scene} (same : o.context = p.context) {cs : List Char}
    {r : DeclarationReader} (read : CToken.read? cs = some r.tokens) : Shares o p r :=
  fun _ member => ⟨by rw [same], CToken.read?_words read member⟩

/-- Behind a list of declarations that is read whole, with all it noted, stands what follows. -/
theorem declarationList_behind {r s later : DeclarationReader} {front : List Char}
    (read : CToken.read? front = some r.tokens) (fresh : r.types = []) {tokens : List CToken}
    (goes_on : s.scene = ⟨r.context, [], r.tokens ++ tokens⟩) {fuel g : Nat}
    {found whole : Declarations} (enough : 4 * r.tokens.length + 4 ≤ fuel)
    (enough' : 4 * s.tokens.length + 4 ≤ g)
    (run : (declarationList fuel found).run r = .ok (whole, later)) :
    ∃ after rest, (declarationList g found).run s = (declarationList rest whole).run after ∧
      after.scene = ⟨r.context.grown later.types, later.types, tokens⟩ ∧
        4 * after.tokens.length + 4 ≤ rest := by
  have alike : Alike ⟨r.context, [], []⟩ ⟨r.context, [], tokens⟩ r s := by
    refine .start rfl r.tokens ?_ goes_on
    rw [scene, fresh, List.append_nil]
  obtain ⟨after, rest, goes, alike, all_taken, left⟩ :=
    declarationList_passes rfl alike (.of_read rfl read) enough enough' run
  obtain ⟨shared, noted, there, here⟩ := alike.reached
  obtain ⟨-, types, shared_left⟩ := Scene.mk.inj there
  have none_shared : shared = [] := by
    rw [all_taken, List.append_nil] at shared_left
    exact shared_left.symm
  refine ⟨after, rest, goes, ?_, left⟩
  rw [here, none_shared, types]
  rfl

/-- What was declared before only stands in front of what is read by one who knows it. -/
theorem declarationList_resumed {b s : DeclarationReader} {back : List Char}
    (read : CToken.read? back = some b.tokens) (fresh : b.types = [])
    (same : s.scene = ⟨b.context, s.types, b.tokens⟩) {fuel rest : Nat}
    (enough : 4 * b.tokens.length + 4 ≤ fuel) (enough' : 4 * s.tokens.length + 4 ≤ rest)
    (front whole : Declarations) :
    (∃ listed later, (declarationList rest front).run s = .ok (listed, later) ∧
        whole = { listed with types := later.types }) ↔
      ∃ listed later, (declarationList fuel .nothing).run b = .ok (listed, later) ∧
        whole = { front with types := s.types } ++ { listed with types := later.types } := by
  have tokens : s.tokens = b.tokens := congrArg Scene.tokens same
  have alike : Alike ⟨b.context, [], []⟩ ⟨b.context, s.types, []⟩ b s := by
    refine .start rfl b.tokens ?_ ?_
    · rw [scene, fresh, List.append_nil]
    · rw [same, List.append_nil]
  have beside := declarationList_parallel (o := ⟨b.context, [], []⟩) (p := ⟨b.context, s.types, []⟩)
    .nothing enough (tokens ▸ enough') b (Nat.le_refl _) (.of_read rfl read)
  have behind : (declarationList rest front).run s =
      (declarationList rest .nothing).run s >>= fun t => .ok (front ++ t.1, t.2) := by
    have parts := declarationList_append rest front .nothing
    rw [Declarations.append_nothing] at parts
    rw [parts]
    rfl
  rw [behind]
  cases run : (declarationList fuel .nothing).run b with
  | error e =>
    obtain ⟨e', run'⟩ := beside.fails s alike ⟨rfl, rfl⟩ e run
    rw [run']
    constructor
    · rintro ⟨_, _, none_read, -⟩
      cases none_read
    · rintro ⟨_, _, none_read, -⟩
      cases none_read
  | ok reached =>
    obtain ⟨listed, later⟩ := reached
    obtain ⟨last, run', alike_last⟩ := beside.agrees s alike listed later run (.inl ⟨rfl, rfl⟩)
    obtain ⟨shared, noted, left, right⟩ := alike_last.reached
    have types : last.types = s.types ++ later.types :=
      (congrArg Scene.types right).trans (congrArg (s.types ++ ·) (congrArg Scene.types left).symm)
    rw [run']
    constructor
    · rintro ⟨_, _, given, rfl⟩
      obtain ⟨rfl, rfl⟩ := Prod.mk.inj (Except.ok.inj given)
      exact ⟨listed, later, rfl, by rw [types]; rfl⟩
    · rintro ⟨_, _, given, rfl⟩
      obtain ⟨rfl, rfl⟩ := Prod.mk.inj (Except.ok.inj given)
      exact ⟨front ++ listed, last, rfl, by rw [types]; rfl⟩

end DeclarationReader

namespace DeclarationContext

variable {context : DeclarationContext} {text : String}

open DeclarationReader

theorem parseTypes_eq_ok_iff {placed : List PlacedToken} (lexed : CToken.lex text = .ok placed)
    (found : Declarations) : context.parseTypes text = .ok found ↔
      ∃ listed later, (declarationList (fuelFor placed) .nothing).run
        ⟨placed, text.utf8ByteSize, context, []⟩ = .ok (listed, later) ∧
          found = { listed with types := later.types } := by
  rw [parseTypes, start, lexed]
  show Prod.fst <$> (allDeclarations).run ⟨placed, text.utf8ByteSize, context, []⟩ = _ ↔ _
  rw [run_allDeclarations]
  show Prod.fst <$> ((declarationList (fuelFor placed) .nothing).run _ >>= _) = _ ↔ _
  cases (declarationList (fuelFor placed) .nothing).run
      ⟨placed, text.utf8ByteSize, context, []⟩ with
  | error e => exact ⟨nofun, nofun⟩
  | ok reached =>
    obtain ⟨listed, later⟩ := reached
    constructor
    · intro parsed
      exact ⟨listed, later, rfl, (Except.ok.inj parsed).symm⟩
    · rintro ⟨_, _, same, rfl⟩
      obtain ⟨rfl, rfl⟩ := Prod.mk.inj (Except.ok.inj same)
      rfl

theorem parseTypes_unread (unread : CToken.read? text.toList = none) (found : Declarations) :
    context.parseTypes text ≠ .ok found := by
  intro parsed
  rw [parseTypes, start] at parsed
  cases lexed : CToken.lex text with
  | error e => rw [lexed] at parsed; cases parsed
  | ok placed =>
    cases unread.symm.trans ((CToken.lex_eq_ok_iff text _).1 ⟨placed, lexed, rfl⟩)

/-- Declarations in two batches, one line behind the other, are those of the first batch and those
that are read behind it by one who knows its types. -/
theorem parseTypes_batches {front : String} {found : Declarations}
    (accepted : context.parseTypes front = .ok found) (back : String) (whole : Declarations) :
    context.parseTypes (front ++ "\n" ++ back) = .ok whole ↔
      ∃ rest, (context.withTypes (found.types.map fun t => (t.1.text, t.2))).parseTypes back =
        .ok rest ∧ whole = found ++ rest := by
  have lines : (front ++ "\n" ++ back).toList = front.toList ++ '\n' :: back.toList := by simp
  cases read_front : CToken.read? front.toList with
  | none => exact absurd accepted (parseTypes_unread read_front found)
  | some tokens =>
    have read_both := CToken.read?_break read_front back.toList
    rw [← lines] at read_both
    cases read_back : CToken.read? back.toList with
    | none =>
      rw [read_back] at read_both
      refine ⟨fun parsed => absurd parsed (parseTypes_unread read_both whole), ?_⟩
      rintro ⟨rest, parsed, -⟩
      exact absurd parsed (parseTypes_unread read_back rest)
    | some others =>
      rw [read_back] at read_both
      obtain ⟨placed, lexed, rfl⟩ := (CToken.lex_eq_ok_iff front tokens).2 read_front
      obtain ⟨behind, lexed_back, rfl⟩ := (CToken.lex_eq_ok_iff back others).2 read_back
      obtain ⟨all, lexed_both, parts⟩ := (CToken.lex_eq_ok_iff _ _).2 read_both
      obtain ⟨listed, later, run, rfl⟩ := (parseTypes_eq_ok_iff lexed found).1 accepted
      -- The first batch is read from its own text and from both, and the second one behind it.
      let r : DeclarationReader := ⟨placed, front.utf8ByteSize, context, []⟩
      let s : DeclarationReader := ⟨all, (front ++ "\n" ++ back).utf8ByteSize, context, []⟩
      let b : DeclarationReader := ⟨behind, back.utf8ByteSize, context.grown later.types, []⟩
      obtain ⟨after, rest, goes, there, left⟩ := declarationList_behind (r := r) (s := s) read_front
        rfl (congrArg (Scene.mk context []) parts)
        (fuelFor_enough r) (fuelFor_enough s) run
      have types : after.types = later.types := congrArg Scene.types there
      have same : after.scene = ⟨b.context, after.types, b.tokens⟩ := by rw [there, types]; rfl
      rw [parseTypes_eq_ok_iff lexed_both, goes,
        declarationList_resumed read_back rfl same (fuelFor_enough b) left, types]
      constructor
      · rintro ⟨more, last, run_back, rfl⟩
        exact ⟨_, (parseTypes_eq_ok_iff lexed_back _).2 ⟨more, last, run_back, rfl⟩, rfl⟩
      · rintro ⟨_, parsed, rfl⟩
        obtain ⟨more, last, run_back, rfl⟩ := (parseTypes_eq_ok_iff lexed_back _).1 parsed
        exact ⟨more, last, run_back, rfl⟩

def nodesText : String :=
  "typedef struct Node \x7b enum Kind \x7b leaf, inner = 4 \x7d kind; struct Node *next; odd id;" ++
    "\x7d node_t, *list_t; unsigned size(list_t l); // nodes"

def pairsText : String :=
  "struct Node \x7b char c; \x7d slim; typedef node_t pair_t[2]; pair_t both; list_t all;"

/-- Names with the widths of what they stand for. -/
def widths (declared : List (QualifiedName × DataType)) : List (String × Word) :=
  declared.map fun t => (t.1.text, t.2.width)

theorem nodes_and_pairs_batches :
    let context : DeclarationContext := ⟨8, .insert .empty "odd" 3⟩
    ∃ found rest, context.parseTypes nodesText = .ok found ∧
      (context.withTypes (found.types.map fun t => (t.1.text, t.2))).parseTypes pairsText =
        .ok rest ∧
      context.parseTypes (nodesText ++ "\n" ++ pairsText) = .ok (found ++ rest) ∧
      widths found.types = [("Kind", 4), ("Node", 24), ("node_t", 24), ("list_t", 8)] ∧
      widths rest.types = [("Node", 1), ("pair_t", 48)] ∧
      widths rest.dataVariables = [("slim", 1), ("both", 48), ("all", 8)] := by
  intro context
  have read : ((context.parseTypes nodesText).toOption.bind fun found =>
      ((context.withTypes (found.types.map fun t => (t.1.text, t.2))).parseTypes
        pairsText).toOption.map fun rest =>
          (widths found.types, widths rest.types, widths rest.dataVariables)) =
      some ([("Kind", 4), ("Node", 24), ("node_t", 24), ("list_t", 8)],
        [("Node", 1), ("pair_t", 48)], [("slim", 1), ("both", 48), ("all", 8)]) := by
    decide +kernel
  obtain ⟨found, first, second⟩ := Option.bind_eq_some_iff.1 read
  obtain ⟨rest, behind, same⟩ := Option.map_eq_some_iff.1 second
  replace first := CToken.eq_ok_of_toOption first
  replace behind := CToken.eq_ok_of_toOption behind
  obtain ⟨found_types, others⟩ := Prod.mk.inj same
  obtain ⟨rest_types, rest_data⟩ := Prod.mk.inj others
  have batches := (parseTypes_batches first pairsText (found ++ rest)).2 ⟨rest, behind, rfl⟩
  exact ⟨found, rest, first, behind, batches, found_types, rest_types, rest_data⟩

end DeclarationContext

end BinaryAtlas
