import BinaryAtlas.Proofs.Declaration.Agreeing

/-!
Readers of declarations make progress. The routines of the reader are watched: as soon as one of
them is visited with no token taken since it was visited before, the watched reader gives up, and it
never does.
-/

set_option autoImplicit false

namespace BinaryAtlas

namespace DeclarationReader

/-- What calls itself, perhaps through others, or goes round. -/
inductive Routine where
  | specifiers
  | structSpecifier
  | structBody
  | memberNames
  | enumerators
  | stars
  | declarator
  | suffixes
  | parameters
  | parameterList
  | declaredNames
  | declarations
  deriving DecidableEq

/-- The routines of a reader, and how it takes tokens. -/
structure Routines (M : Type → Type) where
  skip : Nat → M Unit
  specifiers : Bool → Specifiers → M (DataType × Bool)
  structSpecifier : M DataType
  structBody : M (List (String × DataType))
  memberNames : DataType → M (List (String × DataType))
  enumerators : Int → M (List (String × Int))
  stars : M Nat
  declarator : DataType → M (DataType × Option String)
  suffixes : Option (List Parameter × Bool) → M (Option (List Parameter × Bool) × List Word)
  dimensions : M (List Word)
  parameters : M (List Parameter × Bool)
  parameterList : M (List Parameter × Bool)
  declaredNames : DataType → Bool → Declarations → M Declarations

namespace Routines

variable {M : Type → Type} [Monad M] [MonadLiftT Reading M]

def look : M DeclarationReader := liftM (get : Reading DeclarationReader)

def refuse {α : Type} (what : String) : M α := liftM (fail what : Reading α)

variable (R : Routines M)

def eat (c : Char) : M Bool := do
  if (← look).peek? = some (.mark c) then
    R.skip 1
    pure true
  else pure false

def expect (c : Char) : M Unit := do
  if !(← R.eat c) then refuse ("expected '" ++ c.toString ++ "'")

def word? : M (Option String) := do
  match (← look).peek? with
  | some (.word w) =>
    R.skip 1
    pure (some w)
  | _ => pure none

def number : M Int := do
  let negative ← R.eat '-'
  match (← look).peek? with
  | some (.number n) =>
    R.skip 1
    if n.toNat < 0x8000000000000000 then pure (if negative then -(n.toNat : Int) else n.toNat)
    else refuse "number out of range"
  | _ => refuse "expected a number"

def dimension : M Word := do
  if ← R.eat ']' then pure 0
  else
    let n ← R.number
    R.expect ']'
    if n < 0 then refuse "negative array size" else pure (.ofNat n.toNat)

def enumSpecifier : M DataType := do
  let tag ← R.word?
  if ← R.eat '\x7b' then
    let type := DataType.enumeration tag (← R.enumerators 0) 4
    liftM (defineTag tag type)
    pure type
  else
    match tag with
    | some name => liftM (namedType name)
    | none => refuse "expected an enum name or body"

/-- One level of every routine, which calls the given ones. -/
def body : Routines M where
  skip := R.skip
  specifiers allowTypedef s := do
    match (← look).peek? with
    | some (.word word) =>
      match specifierStep allowTypedef (← look).context s word with
      | .take s =>
        R.skip 1
        R.specifiers allowTypedef s
      | .structure_ =>
        R.skip 1
        let type ← R.structSpecifier
        R.specifiers allowTypedef { s with base := some (.other type) }
      | .enumeration =>
        R.skip 1
        let type ← R.enumSpecifier
        R.specifiers allowTypedef { s with base := some (.other type) }
      | .stop => liftM (finishSpecifiers s)
      | .refuse what => refuse what
    | _ => liftM (finishSpecifiers s)
  structSpecifier := do
    let tag ← R.word?
    if ← R.eat '\x7b' then
      let type := DataType.laidOut tag (← R.structBody)
      liftM (defineTag tag type)
      pure type
    else
      match tag with
      | some name => liftM (namedType name)
      | none => refuse "expected a struct name or body"
  structBody := do
    if ← R.eat '\x7d' then pure []
    else if ← (liftM atEnd : M Bool) then refuse "unterminated struct body"
    else
      let (type, _) ← R.specifiers false .none
      let members ← R.memberNames type
      R.expect ';'
      pure (members ++ (← R.structBody))
  memberNames base := do
    match ← R.declarator base with
    | (_, none) => refuse "struct member has no name"
    | (type, some name) =>
      if ← R.eat ',' then pure ((name, type) :: (← R.memberNames base))
      else pure [(name, type)]
  enumerators next := do
    if ← R.eat '\x7d' then pure []
    else
      match ← R.word? with
      | none => refuse "expected an enumerator"
      | some name =>
        let value ← if ← R.eat '=' then R.number else pure next
        if ← R.eat ',' then
          let others ← R.enumerators (Int.bmod (value + 1) 0x10000000000000000)
          pure ((name, value) :: others)
        else
          R.expect '\x7d'
          pure [(name, value)]
  stars := do
    if ← R.eat '*' then
      liftM skipIgnored
      pure ((← R.stars) + 1)
    else pure 0
  declarator base := do
    let addressSize := (← look).context.addressSize
    let inner := pointers addressSize (← R.stars) base
    let (name, outer) ←
      if (← look).peek? = some (.mark '(') ∧ (← look).peekSecond? = some (.mark '*') then
        R.skip 1
        let outer ← R.stars
        let name ← R.word?
        R.expect ')'
        pure (name, outer)
      else
        let name ← R.word?
        pure (name, 0)
    let (parameters, dims) ← R.suffixes none
    let result := match parameters with
      | some (parameters, variadic) => DataType.function inner parameters variadic
      | none => inner
    let type := pointers addressSize outer (dims.foldr (fun count t => .array t count) result)
    if (← look).peek? = some (.mark '=') then refuse "initializers are not supported"
    else pure (type, name)
  suffixes found := do
    if ← R.eat '[' then
      let first ← R.dimension
      let others ← R.dimensions
      pure (found, first :: others)
    else if found.isNone then
      if ← R.eat '(' then R.suffixes (some (← R.parameters))
      else pure (found, [])
    else pure (found, [])
  dimensions := do
    if ← R.eat '[' then
      let first ← R.dimension
      let others ← R.dimensions
      pure (first :: others)
    else pure []
  parameters := do
    if ← R.eat ')' then pure ([], false)
    else if (← look).peek? = some (.word "void") ∧ (← look).peekSecond? = some (.mark ')') then
      R.skip 2
      pure ([], false)
    else R.parameterList
  parameterList := do
    if (← look).peek? = some .ellipsis then
      R.skip 1
      R.expect ')'
      pure ([], true)
    else
      let (base, _) ← R.specifiers false .none
      let (type, name) ← R.declarator base
      if ← R.eat ')' then pure ([.mk name type], false)
      else
        R.expect ','
        let (others, variadic) ← R.parameterList
        pure (.mk name type :: others, variadic)
  declaredNames base isTypedef found := do
    match ← R.declarator base with
    | (_, none) => refuse "declaration has no name"
    | (type, some name) =>
      let found ← liftM (declare isTypedef (← liftM (qualify name)) type found)
      if ← R.eat ',' then R.declaredNames base isTypedef found
      else
        R.expect ';'
        pure found

/-- The reader itself. -/
def ofFuel (fuel : Nat) : Routines Reading where
  skip := drop
  specifiers allowTypedef s := DeclarationReader.specifiers allowTypedef fuel s
  structSpecifier := DeclarationReader.structSpecifier fuel
  structBody := DeclarationReader.structBody fuel
  memberNames base := DeclarationReader.memberNames base fuel
  enumerators next := DeclarationReader.enumerators fuel next
  stars := DeclarationReader.stars fuel
  declarator base := DeclarationReader.declarator base fuel
  suffixes found := DeclarationReader.suffixes found fuel
  dimensions := DeclarationReader.dimensions fuel
  parameters := DeclarationReader.parameters fuel
  parameterList := DeclarationReader.parameterList fuel
  declaredNames base isTypedef found := DeclarationReader.declaredNames base isTypedef fuel found

theorem ofFuel_succ (fuel : Nat) : ofFuel (fuel + 1) = (ofFuel fuel).body := rfl

end Routines

def left (r : DeclarationReader) : Nat := r.rest.length

/-- How many tokens were left when a routine was last visited, or more if it never was. -/
abbrev Watch : Type := Routine → Nat

abbrev Watched (α : Type) : Type := StateT Watch Reading α

/-- Goes on if a token was taken since the routine was visited before. -/
def visit (routine : Routine) : Watched Unit := fun watch => do
  let left := (← get).left
  if left < watch routine then
    pure ((), fun other => if other = routine then left else watch other)
  else throw (.internal "no token was taken")

/-- Takes tokens that are there. -/
def advance (n : Nat) : Watched Unit := fun watch => do
  if n ≤ (← get).left then
    drop n
    pure ((), watch)
  else throw (.internal "no token is left")

namespace Routines

def tooDeep {α : Type} : Watched α := throw (.internal "the text is too deeply nested")

def exhausted : Routines Watched where
  skip := advance
  specifiers _ _ := tooDeep
  structSpecifier := tooDeep
  structBody := tooDeep
  memberNames _ := tooDeep
  enumerators _ := tooDeep
  stars := tooDeep
  declarator _ := tooDeep
  suffixes _ := tooDeep
  dimensions := tooDeep
  parameters := tooDeep
  parameterList := tooDeep
  declaredNames _ _ _ := tooDeep

/-- Every routine visited before it does what it does. Dimensions are read by going round in what
reads suffixes. -/
def visited (W : Routines Watched) : Routines Watched where
  skip := W.skip
  specifiers allowTypedef s := do visit .specifiers; W.specifiers allowTypedef s
  structSpecifier := do visit .structSpecifier; W.structSpecifier
  structBody := do visit .structBody; W.structBody
  memberNames base := do visit .memberNames; W.memberNames base
  enumerators next := do visit .enumerators; W.enumerators next
  stars := do visit .stars; W.stars
  declarator base := do visit .declarator; W.declarator base
  suffixes found := do visit .suffixes; W.suffixes found
  dimensions := do visit .suffixes; W.dimensions
  parameters := do visit .parameters; W.parameters
  parameterList := do visit .parameterList; W.parameterList
  declaredNames base isTypedef found := do
    visit .declaredNames
    W.declaredNames base isTypedef found

/-- The reader with all its visits watched. -/
def watched : Nat → Routines Watched
  | 0 => exhausted
  | fuel + 1 => (watched fuel).body.visited

end Routines

/-- With so many tokens left, none more than at any visit, the routines that are free were last
visited with more. -/
def Admits (watch : Watch) (free : Routine → Prop) (left : Nat) : Prop :=
  ∀ routine, left ≤ watch routine ∧ (free routine → left < watch routine)

def anywhere (_ : Routine) : Prop := True

def nowhere (_ : Routine) : Prop := False

instance : DecidablePred anywhere := fun _ => isTrue trivial

namespace Admits

variable {watch : Watch} {free : Routine → Prop} {n m : Nat}

theorem imp (admits : Admits watch free n) {fewer : Routine → Prop}
    (sub : ∀ routine, fewer routine → free routine) : Admits watch fewer n :=
  fun routine => ⟨(admits routine).1, fun here => (admits routine).2 (sub routine here)⟩

theorem later (admits : Admits watch free n) (le : m ≤ n) : Admits watch free m :=
  fun routine => ⟨Nat.le_trans le (admits routine).1,
    fun here => Nat.lt_of_le_of_lt le ((admits routine).2 here)⟩

theorem spent (admits : Admits watch free n) : Admits watch nowhere n :=
  admits.imp fun _ => False.elim

/-- Once a token is taken, every routine can be visited. -/
theorem taken {others : Routine → Prop} (admits : Admits watch free n) (less : m < n) :
    Admits watch others m :=
  fun routine => have lt := Nat.lt_of_lt_of_le less (admits routine).1
    ⟨Nat.le_of_lt lt, fun _ => lt⟩

end Admits

/-- A reading and its watched form do the same from here: both fail for what the text says, or both
go on behind here, to where something holds. -/
structure Follows {α : Type} (r : DeclarationReader) (watch : Watch) (x : Reading α)
    (y : Watched α) (post : α → DeclarationReader → Watch → Prop) : Prop where
  refuses : ∀ e, x.run r = .error e → (∃ what, e = .parse what) ∧ (y.run watch).run r = .error e
  reaches : ∀ a later, x.run r = .ok (a, later) → later.rest <:+ r.rest ∧
    ∃ watch', (y.run watch).run r = .ok ((a, watch'), later) ∧ post a later watch'

/-- So many tokens are taken, and some routines can be visited next. -/
def Reached {α : Type} (r : DeclarationReader) (take : Nat) (free : Routine → Prop) (_ : α)
    (later : DeclarationReader) (watch : Watch) : Prop :=
  later.left + take ≤ r.left ∧ Admits watch free later.left

theorem Reached.of_less {α : Type} {r mid later : DeclarationReader} {take take' : Nat}
    {free : Routine → Prop} {a : α} {watch : Watch} (reached : Reached mid take free a later watch)
    (less : mid.left + take' ≤ r.left + take) : Reached r take' free a later watch :=
  ⟨by have := reached.1; omega, reached.2⟩

/-- A reading without routines, which fails for what the text says only. -/
structure Plain {α : Type} (x : Reading α) : Prop where
  refuses : ∀ {r e}, x.run r = .error e → ∃ what, e = .parse what
  reaches : ∀ {r a later}, x.run r = .ok (a, later) → later.rest <:+ r.rest

theorem left_le {r later : DeclarationReader} (suffix : later.rest <:+ r.rest) :
    later.left ≤ r.left :=
  suffix.length_le

theorem left_pos {r : DeclarationReader} {t : CToken} (front : r.peek? = some t) : 1 ≤ r.left := by
  have some_left := length_pos_of_peek front
  rwa [tokens, List.length_map] at some_left

theorem left_two {r : DeclarationReader} {t : CToken} (second : r.peekSecond? = some t) :
    2 ≤ r.left := by
  obtain ⟨placed, there, -⟩ := Option.map_eq_some_iff.1 second
  obtain ⟨less, -⟩ := List.getElem?_eq_some_iff.1 there
  exact less

namespace Follows

open Routines

variable {α β : Type} {r : DeclarationReader} {watch watch' : Watch} {x : Reading α}
  {y y' : Watched α} {post : α → DeclarationReader → Watch → Prop}
  {last : β → DeclarationReader → Watch → Prop} {f : α → Reading β} {g : α → Watched β}

theorem congr (follows : Follows r watch' x y' post)
    (same : (y.run watch).run r = (y'.run watch').run r) : Follows r watch x y post where
  refuses e run := same ▸ follows.refuses e run
  reaches a later run := same ▸ follows.reaches a later run

theorem weaken {strong : α → DeclarationReader → Watch → Prop}
    (follows : Follows r watch x y strong)
    (weaker : ∀ a later watch', strong a later watch' → post a later watch') :
    Follows r watch x y post where
  refuses := follows.refuses
  reaches a later run := by
    obtain ⟨suffix, watch', other, given⟩ := follows.reaches a later run
    exact ⟨suffix, watch', other, weaker a later watch' given⟩

theorem pure {a : α} (given : post a r watch) : Follows r watch (pure a) (pure a) post where
  refuses _ run := by cases run
  reaches b later run := by
    obtain ⟨rfl, rfl⟩ := Prod.mk.inj (Except.ok.inj run)
    exact ⟨List.suffix_refl _, watch, rfl, given⟩

theorem refuse {what : String} : Follows r watch (refuse what : Reading α) (refuse what) post where
  refuses e run := by
    obtain rfl := Except.error.inj run
    exact ⟨⟨_, rfl⟩, rfl⟩
  reaches _ _ run := by cases run

theorem bind (first : Follows r watch x y fun a later watch' =>
    Follows later watch' (f a) (g a) last) : Follows r watch (x >>= f) (y >>= g) last := by
  have parts : (y >>= g).run watch = y.run watch >>= fun t => (g t.1).run t.2 := StateT.run_bind ..
  cases front : x.run r with
  | error e =>
    obtain ⟨parse, other⟩ := first.refuses e front
    have stops := run_bind_error front f
    refine ⟨fun e' run => ?_, fun a later run => ?_⟩
    · obtain rfl := Except.error.inj (stops.symm.trans run)
      exact ⟨parse, parts ▸ run_bind_error other _⟩
    · cases stops.symm.trans run
  | ok reached =>
    obtain ⟨a, later⟩ := reached
    obtain ⟨suffix, watch', other, next⟩ := first.reaches a later front
    have goes := run_bind_ok front f
    have goes' : ((y >>= g).run watch).run r = ((g a).run watch').run later :=
      parts ▸ run_bind_ok other _
    refine ⟨fun e run => ?_, fun b end_ run => ?_⟩
    · rw [goes']
      exact next.refuses e (goes.symm.trans run)
    · rw [goes']
      obtain ⟨suffix', reached⟩ := next.reaches b end_ (goes.symm.trans run)
      exact ⟨suffix'.trans suffix, reached⟩

theorem call {take : Nat} {free : Routine → Prop}
    (first : Follows r watch x y (Reached r take free))
    (next : ∀ a later watch', later.left + take ≤ r.left → Admits watch' free later.left →
      Follows later watch' (f a) (g a) last) : Follows r watch (x >>= f) (y >>= g) last :=
  .bind (first.weaken fun a later watch' reached => next a later watch' reached.1 reached.2)

theorem given {a : α} (next : Follows r watch (f a) (g a) last) :
    Follows r watch (Pure.pure a >>= f) (Pure.pure a >>= g) last :=
  .bind (.pure next)

/-- The last call, with some tokens taken before it. -/
theorem onward {mid : DeclarationReader} {take take' : Nat} {free : Routine → Prop}
    (follows : Follows mid watch x y (Reached mid take free))
    (less : mid.left + take' ≤ r.left + take) : Follows mid watch x y (Reached r take' free) :=
  follows.weaken fun _ _ _ reached => reached.of_less less

/-- The last call, whose answer becomes part of another. -/
theorem returning {mid : DeclarationReader} {take take' : Nat} {free : Routine → Prop}
    (follows : Follows mid watch x y (Reached mid take free))
    (less : mid.left + take' ≤ r.left + take) (make : α → β) :
    Follows mid watch (x >>= fun a => Pure.pure (make a)) (y >>= fun a => Pure.pure (make a))
      (Reached r take' free) :=
  .bind (follows.weaken fun _ _ _ reached => .pure (reached.of_less less))

theorem discard {f : Unit → Reading β} {g : Unit → Watched β}
    (follows : Follows r watch (x >>= fun _ => f ()) (y >>= fun _ => g ()) last) :
    Follows r watch (discard x >>= f) (discard y >>= g) last := by
  rw [Functor.discard, Functor.discard, map_const, map_const, Function.comp_apply,
    Function.comp_apply, bind_map_left, bind_map_left]
  exact follows

theorem look {f : DeclarationReader → Reading β} {g : DeclarationReader → Watched β}
    (next : Follows r watch (f r) (g r) last) : Follows r watch (look >>= f) (look >>= g) last :=
  ⟨next.refuses, next.reaches⟩

theorem lift (plain : Plain x) (given : ∀ a later, later.left ≤ r.left → post a later watch) :
    Follows r watch (liftM x) (liftM x) post := by
  have parts : (liftM x : Watched α).run watch = x >>= fun a => Pure.pure (a, watch) := rfl
  refine ⟨fun e run => ⟨plain.refuses run, ?_⟩, fun a later run => ?_⟩
  · rw [parts]
    exact run_bind_error run _
  · have suffix := plain.reaches run
    refine ⟨suffix, watch, ?_, given a later (left_le suffix)⟩
    rw [parts]
    exact run_bind_ok run _

theorem plain (plain : Plain x) (next : ∀ a later, later.left ≤ r.left →
    Follows later watch (f a) (g a) last) :
    Follows r watch (liftM x >>= f) (liftM x >>= g) last :=
  .bind (.lift plain next)

theorem atEnd {f : Bool → Reading β} {g : Bool → Watched β}
    (ended : r.left = 0 → Follows r watch (f true) (g true) last)
    (goes : r.left ≠ 0 → Follows r watch (f false) (g false) last) :
    Follows r watch (liftM atEnd >>= f) (liftM atEnd >>= g) last := by
  have step (found : Bool) (here : r.rest.isEmpty = found)
      (next : Follows r watch (f found) (g found) last) :
      Follows r watch (liftM DeclarationReader.atEnd >>= f) (liftM DeclarationReader.atEnd >>= g)
        last := by
    subst here
    exact ⟨next.refuses, next.reaches⟩
  by_cases empty : r.rest = []
  · exact step true (List.isEmpty_iff.2 empty) (ended (List.length_eq_zero_iff.2 empty))
  · exact step false (List.isEmpty_eq_false_iff.2 empty)
      (goes fun zero => empty (List.length_eq_zero_iff.1 zero))

theorem visit {free : Routine → Prop} {routine : Routine} (admits : Admits watch free r.left)
    (here : free routine) (next : ∀ watch',
      Admits watch' (fun other => free other ∧ other ≠ routine) r.left →
        Follows r watch' x y post) :
    Follows r watch x (visit routine >>= fun _ => y) post := by
  let noted : Watch := fun other => if other = routine then r.left else watch other
  have still : Admits noted (fun other => free other ∧ other ≠ routine) r.left := by
    intro other
    by_cases same : other = routine
    · subst same
      exact ⟨by simp [noted], fun both => absurd rfl both.2⟩
    · rw [show noted other = watch other from if_neg same]
      exact ⟨(admits other).1, fun both => (admits other).2 both.1⟩
  refine (next noted still).congr ?_
  have goes : ((DeclarationReader.visit routine).run watch).run r = .ok (((), noted), r) := by
    show (if r.left < watch routine then _ else _ : Reading (Unit × Watch)).run r = _
    rw [if_pos ((admits routine).2 here)]
    rfl
  rw [StateT.run_bind]
  exact run_bind_ok goes _

theorem ite {c : Prop} [Decidable c] {x' : Reading α} (yes : c → Follows r watch x y post)
    (no : ¬ c → Follows r watch x' y' post) :
    Follows r watch (if c then x else x') (if c then y else y') post := by
  by_cases holds : c
  · rw [if_pos holds, if_pos holds]
    exact yes holds
  · rw [if_neg holds, if_neg holds]
    exact no holds

end Follows

/-- Both skip tokens alike where there are so many. -/
def Skips (R : Routines Reading) (W : Routines Watched) : Prop :=
  ∀ (n : Nat) (r : DeclarationReader) (watch : Watch), n ≤ r.left →
    Follows r watch (R.skip n) (W.skip n) fun _ later watch' =>
      later.left + n = r.left ∧ watch' = watch

theorem skips_advance {R : Routines Reading} {W : Routines Watched} (drops : R.skip = drop)
    (advances : W.skip = advance) : Skips R W := by
  intro n r watch there
  rw [drops, advances]
  refine ⟨fun e run => (by cases run), fun a later run => ?_⟩
  obtain ⟨-, rfl⟩ := Prod.mk.inj (Except.ok.inj run)
  refine ⟨List.drop_suffix n _, watch, ?_, ?_, rfl⟩
  · show (if n ≤ r.left then _ else _ : Reading (Unit × Watch)).run r = _
    rw [if_pos there]
    rfl
  · have length := List.length_drop (i := n) (l := r.rest)
    have there' : n ≤ r.rest.length := there
    show (r.rest.drop n).length + n = r.rest.length
    omega

section Tokens

/-! What takes single tokens. -/

open Routines

variable {R : Routines Reading} {W : Routines Watched} {α β : Type} {r : DeclarationReader}
  {watch : Watch} {last : β → DeclarationReader → Watch → Prop}

theorem Skips.skip (skips : Skips R W) {n : Nat} (there : n ≤ r.left) {f : Unit → Reading β}
    {g : Unit → Watched β}
    (next : ∀ later, later.left + n = r.left → Follows later watch (f ()) (g ()) last) :
    Follows r watch (R.skip n >>= f) (W.skip n >>= g) last := by
  refine .bind ((skips n r watch there).weaken ?_)
  rintro ⟨⟩ later watch' ⟨fewer, rfl⟩
  exact next later fewer

theorem Skips.mark (skips : Skips R W) {c : Char} {f : Bool → Reading β} {g : Bool → Watched β}
    (found : ∀ later, later.left + 1 = r.left → Follows later watch (f true) (g true) last)
    (missing : Follows r watch (f false) (g false) last) :
    Follows r watch (R.eat c >>= f) (W.eat c >>= g) last := by
  refine .bind (.look (.ite (fun front => ?_) fun _ => .pure missing))
  exact skips.skip (left_pos front) fun later fewer => .pure (found later fewer)

theorem Skips.eat (skips : Skips R W) {c : Char} {x x' : Reading β} {y y' : Watched β}
    (found : ∀ later, later.left + 1 = r.left → Follows later watch x y last)
    (missing : Follows r watch x' y' last) :
    Follows r watch (R.eat c >>= fun here => if here = true then x else x')
      (W.eat c >>= fun here => if here = true then y else y') last :=
  skips.mark found missing

/-- A mark that may be missing. -/
theorem Skips.optional (skips : Skips R W) {c : Char} {f : Bool → Reading β}
    {g : Bool → Watched β} (next : ∀ later found, later.left ≤ r.left →
      Follows later watch (f found) (g found) last) :
    Follows r watch (R.eat c >>= f) (W.eat c >>= g) last :=
  skips.mark (fun later fewer => next later true (by omega)) (next r false (Nat.le_refl _))

theorem Skips.expect (skips : Skips R W) {c : Char} {f : Unit → Reading β} {g : Unit → Watched β}
    (next : ∀ later, later.left + 1 = r.left → Follows later watch (f ()) (g ()) last) :
    Follows r watch (R.expect c >>= f) (W.expect c >>= g) last :=
  .bind (skips.mark (fun later fewer => .pure (next later fewer)) .refuse)

theorem Skips.word (skips : Skips R W) {f : Option String → Reading β}
    {g : Option String → Watched β}
    (found : ∀ later name, later.left + 1 = r.left →
      Follows later watch (f (some name)) (g (some name)) last)
    (missing : Follows r watch (f none) (g none) last) :
    Follows r watch (R.word? >>= f) (W.word? >>= g) last := by
  refine .bind (.look ?_)
  split
  next name front =>
    exact skips.skip (left_pos front) fun later fewer => .pure (found later name fewer)
  next => exact .pure missing

/-- So many tokens are taken, and no routine is visited. -/
def Taken {α : Type} (r : DeclarationReader) (take : Nat) (watch : Watch) (_ : α)
    (later : DeclarationReader) (watch' : Watch) : Prop :=
  later.left + take ≤ r.left ∧ watch' = watch

theorem Follows.take {take : Nat} {x : Reading α} {y : Watched α}
    (first : Follows r watch x y (Taken r take watch)) {f : α → Reading β} {g : α → Watched β}
    (next : ∀ later a, later.left + take ≤ r.left → Follows later watch (f a) (g a) last) :
    Follows r watch (x >>= f) (y >>= g) last := by
  refine .bind (first.weaken ?_)
  rintro a later watch' ⟨fewer, rfl⟩
  exact next later a fewer

theorem Skips.number (skips : Skips R W) : Follows r watch R.number W.number (Taken r 1 watch) := by
  refine skips.optional fun mid negative le => .look ?_
  split
  next n front =>
    refine skips.skip (left_pos front) fun later fewer => .ite (fun _ => .pure ?_) fun _ => .refuse
    exact ⟨by omega, rfl⟩
  next => exact .refuse

theorem Skips.dimension (skips : Skips R W) :
    Follows r watch R.dimension W.dimension (Taken r 1 watch) := by
  refine skips.eat (fun later fewer => .pure ⟨by omega, rfl⟩) ?_
  refine skips.number.take fun mid n fewer => skips.expect fun later fewer' => ?_
  exact .ite (fun _ => .refuse) fun _ => .pure ⟨by omega, rfl⟩

end Tokens

namespace Plain

/-! What visits no routine. -/

variable {α β : Type} {x : Reading α} {f : α → Reading β}

theorem pure {a : α} : Plain (pure a : Reading α) where
  refuses run := by cases run
  reaches run := by
    obtain ⟨-, rfl⟩ := Prod.mk.inj (Except.ok.inj run)
    exact List.suffix_refl _

theorem fail {what : String} : Plain (fail what : Reading α) where
  refuses run := ⟨_, (Except.error.inj run).symm⟩
  reaches run := by cases run

theorem modify {change : DeclarationReader → DeclarationReader}
    (suffix : ∀ r, (change r).rest <:+ r.rest) : Plain (modify change : Reading Unit) where
  refuses run := by cases run
  reaches run := by
    obtain ⟨-, rfl⟩ := Prod.mk.inj (Except.ok.inj run)
    exact suffix _

theorem bind (first : Plain x) (next : ∀ a, Plain (f a)) : Plain (x >>= f) where
  refuses {r e} run := by
    cases front : x.run r with
    | error e' =>
      obtain rfl := Except.error.inj ((run_bind_error front f).symm.trans run)
      exact first.refuses front
    | ok reached => exact (next reached.1).refuses ((run_bind_ok front f).symm.trans run)
  reaches {r b later} run := by
    cases front : x.run r with
    | error e => cases (run_bind_error front f).symm.trans run
    | ok reached =>
      exact ((next reached.1).reaches ((run_bind_ok front f).symm.trans run)).trans
        (first.reaches front)

theorem get {f : DeclarationReader → Reading β} (next : ∀ r, Plain (f r)) :
    Plain (get >>= f) where
  refuses {r _} run := (next r).refuses run
  reaches {r _ _} run := (next r).reaches run

theorem atEnd : Plain atEnd := .get fun _ => .pure

theorem skipIgnored : Plain skipIgnored := .modify fun _ => List.dropWhile_suffix _

theorem namedType (name : String) : Plain (namedType name) := .get fun _ => .pure

theorem finishSpecifiers (s : Specifiers) : Plain (finishSpecifiers s) := by
  refine .get fun r => ?_
  split
  · exact .pure
  · exact .fail

theorem qualify (name : String) : Plain (qualify name) := by
  unfold DeclarationReader.qualify
  split
  · exact .pure
  · exact ⟨fun run => ⟨_, (Except.error.inj run).symm⟩, fun run => by cases run⟩

theorem defineTag (tag : Option String) (type : DataType) : Plain (defineTag tag type) := by
  cases tag with
  | none => exact .pure
  | some name =>
    refine .bind (.modify fun _ => List.suffix_refl _) fun _ => .bind (.qualify name) fun q => ?_
    exact .modify fun _ => List.suffix_refl _

theorem declare (isTypedef : Bool) (name : QualifiedName) (type : DataType)
    (found : Declarations) : Plain (declare isTypedef name type found) := by
  cases isTypedef with
  | true =>
    refine .bind (.modify fun _ => List.suffix_refl _) fun _ => ?_
    exact .bind (.modify fun _ => List.suffix_refl _) fun _ => .pure
  | false => cases type <;> exact .pure

end Plain

open Routines

/-- Where there is so much fuel for the tokens that are left, a reading and its watched form do the
same and take so many tokens. -/
def Passes {α : Type} (bound more take : Nat) (before after : Routine → Prop) (x : Reading α)
    (y : Watched α) : Prop :=
  ∀ (r : DeclarationReader) (watch : Watch), 4 * r.left + more ≤ bound →
    Admits watch before r.left → Follows r watch x y (Reached r take after)

/-- With so much fuel every routine does what its watched form does. A routine that may take nothing
leaves the ones that are free no less free, but for those that it visits. -/
structure Following (bound : Nat) (R : Routines Reading) (W : Routines Watched) : Prop where
  skips : Skips R W
  specifiers : ∀ (allowTypedef : Bool) (s : Specifiers),
    Passes bound 1 0 anywhere (· ≠ .specifiers) (R.specifiers allowTypedef s)
      (W.specifiers allowTypedef s)
  typed : ∀ allowTypedef : Bool,
    Passes bound 1 1 (· = .specifiers) (· ≠ .specifiers) (R.specifiers allowTypedef .none)
      (W.specifiers allowTypedef .none)
  structSpecifier : Passes bound 1 1 anywhere anywhere R.structSpecifier W.structSpecifier
  structBody : Passes bound 4 1 anywhere anywhere R.structBody W.structBody
  memberNames : ∀ base : DataType,
    Passes bound 3 0 (· ∈ [.memberNames, .declarator, .stars, .suffixes]) nowhere
      (R.memberNames base) (W.memberNames base)
  enumerators : ∀ next : Int,
    Passes bound 1 1 anywhere anywhere (R.enumerators next) (W.enumerators next)
  stars : ∀ free : Routine → Prop, free .stars →
    Passes bound 1 0 free (fun other => free other ∧ other ≠ .stars) R.stars W.stars
  declarator : ∀ base : DataType,
    Passes bound 2 0 (· ∈ [.declarator, .stars, .suffixes]) nowhere (R.declarator base)
      (W.declarator base)
  suffixes : ∀ found : Option (List Parameter × Bool),
    Passes bound 1 0 (· = .suffixes) nowhere (R.suffixes found) (W.suffixes found)
  dimensions : Passes bound 1 0 (· = .suffixes) nowhere R.dimensions W.dimensions
  parameters : Passes bound 4 1 anywhere anywhere R.parameters W.parameters
  parameterList : Passes bound 3 1 (· ∈ [.parameterList, .specifiers]) anywhere R.parameterList
    W.parameterList
  declaredNames : ∀ (base : DataType) (isTypedef : Bool) (found : Declarations),
    Passes bound 3 1 (· ∈ [.declaredNames, .declarator, .stars, .suffixes]) anywhere
      (R.declaredNames base isTypedef found) (W.declaredNames base isTypedef found)

namespace Following

variable {bound : Nat} {R : Routines Reading} {W : Routines Watched}

theorem stars_next (following : Following bound R W) {free : Routine → Prop} (here : free .stars) :
    Passes (bound + 1) 1 0 free (fun other => free other ∧ other ≠ .stars) R.body.stars
      W.body.visited.stars := by
  intro r watch enough admits
  refine .visit admits here fun watch admits => ?_
  refine following.skips.eat (fun mid fewer => ?_) (.pure ⟨Nat.le_refl _, admits⟩)
  refine .plain .skipIgnored fun _ later le => ?_
  refine .call (following.stars anywhere trivial later watch (by omega)
    (admits.taken (by omega))) fun n last watch' le' admits' => .pure ⟨by omega, ?_⟩
  exact admits'.imp fun other free => ⟨trivial, free.2⟩

theorem enumerators_next (following : Following bound R W) (next : Int) :
    Passes (bound + 1) 1 1 anywhere anywhere (R.body.enumerators next)
      (W.body.visited.enumerators next) := by
  intro r watch enough admits
  refine .visit admits trivial fun watch admits => ?_
  refine following.skips.eat (fun later fewer => .pure ⟨by omega, admits.taken (by omega)⟩) ?_
  refine following.skips.word (fun mid name fewer => ?_) .refuse
  -- With a value of its own or without, an enumerator is followed by others or by the brace.
  refine following.skips.optional fun valued found le => .ite
    (fun _ => following.skips.number.take fun ended value fewer' => ?_) fun _ => .given ?_
  all_goals
    refine following.skips.eat (fun later fewer'' => ?_) ?_
    · exact (following.enumerators _ later watch (by omega)
        (admits.taken (by omega))).returning (by omega) _
    · exact following.skips.expect fun later fewer'' => .pure ⟨by omega, admits.taken (by omega)⟩

theorem dimensions_next (following : Following bound R W) :
    Passes (bound + 1) 1 0 (· = .suffixes) nowhere R.body.dimensions W.body.visited.dimensions := by
  intro r watch enough admits
  refine .visit admits rfl fun watch admits => ?_
  refine following.skips.eat (fun mid fewer => ?_) (.pure ⟨Nat.le_refl _, admits.spent⟩)
  refine following.skips.dimension.take fun later first fewer' => ?_
  exact (following.dimensions later watch (by omega)
    (admits.taken (by omega))).returning (by omega) _

theorem suffixes_next (following : Following bound R W)
    (found : Option (List Parameter × Bool)) :
    Passes (bound + 1) 1 0 (· = .suffixes) nowhere (R.body.suffixes found)
      (W.body.visited.suffixes found) := by
  intro r watch enough admits
  refine .visit admits rfl fun watch admits => ?_
  refine following.skips.eat (fun mid fewer => ?_) (.ite (fun _ => ?_) fun _ => ?_)
  · refine following.skips.dimension.take fun later first fewer' => ?_
    exact (following.dimensions later watch (by omega)
      (admits.taken (by omega))).returning (by omega) _
  · refine following.skips.eat (fun mid fewer => ?_) (.pure ⟨Nat.le_refl _, admits.spent⟩)
    refine .call (following.parameters mid watch (by omega) (admits.taken (by omega)))
      fun parameters later watch' le admits' => ?_
    exact (following.suffixes _ later watch' (by omega) (admits'.imp fun _ _ => trivial)).onward
      (by omega)
  · exact .pure ⟨Nat.le_refl _, admits.spent⟩

theorem memberNames_next (following : Following bound R W) (base : DataType) :
    Passes (bound + 1) 3 0 (· ∈ [.memberNames, .declarator, .stars, .suffixes]) nowhere
      (R.body.memberNames base) (W.body.visited.memberNames base) := by
  intro r watch enough admits
  refine .visit admits (by decide) fun watch admits => ?_
  refine .call (following.declarator base r watch (by omega) (admits.imp (by decide)))
    fun named mid watch' le admits' => ?_
  obtain ⟨type, _ | name⟩ := named
  · exact .refuse
  · refine following.skips.eat (fun later fewer => ?_) (.pure ⟨le, admits'⟩)
    exact (following.memberNames base later watch' (by omega)
      (admits'.taken (by omega))).returning (by omega) _

theorem structBody_next (following : Following bound R W) :
    Passes (bound + 1) 4 1 anywhere anywhere R.body.structBody W.body.visited.structBody := by
  intro r watch enough admits
  refine .visit admits trivial fun watch admits => ?_
  refine following.skips.eat (fun later fewer => .pure ⟨by omega, admits.taken (by omega)⟩) ?_
  refine .plain .atEnd fun ended mid le => .ite (fun _ => .refuse) fun _ => ?_
  refine .call (following.typed false mid watch (by omega) ((admits.later le).imp ?_))
    fun specified typed watch' le' admits' => ?_
  · rintro _ rfl
    exact ⟨trivial, by decide⟩
  refine .call (following.memberNames _ typed watch' (by omega) (admits'.imp (by decide)))
    fun members named watch'' le'' admits'' => ?_
  -- The mark behind the names is what lets the body go round.
  refine following.skips.expect fun later fewer => ?_
  exact (following.structBody later watch'' (by omega)
    (admits''.taken (by omega))).returning (by omega) _

/-- What is between the braces makes a type, which its tag names from there on. -/
theorem defining {α : Type} {x : Reading α} {y : Watched α} {r s : DeclarationReader}
    {watch : Watch} {take : Nat} {free : Routine → Prop}
    (first : Follows s watch x y (Reached r take free)) (tag : Option String)
    (make : α → DataType) :
    Follows s watch
      (x >>= fun parts => liftM (defineTag tag (make parts)) >>= fun _ => pure (make parts))
      (y >>= fun parts => liftM (defineTag tag (make parts)) >>= fun _ => pure (make parts))
      (Reached r take free) := by
  refine .bind (first.weaken fun parts mid watch' reached => ?_)
  refine .plain (.defineTag tag _) fun _ later le => .pure ⟨?_, reached.2.later le⟩
  have := reached.1
  omega

theorem structSpecifier_next (following : Following bound R W) :
    Passes (bound + 1) 1 1 anywhere anywhere R.body.structSpecifier
      W.body.visited.structSpecifier := by
  intro r watch enough admits
  refine .visit admits trivial fun watch admits => ?_
  have body (later : DeclarationReader) (less : later.left + 1 ≤ r.left) (tag : Option String) :=
    defining ((following.structBody later watch (by omega) (admits.taken (by omega))).onward
      (r := r) (show later.left + 1 ≤ r.left + 1 by omega)) tag (DataType.laidOut tag)
  refine following.skips.word
    (fun mid name fewer => following.skips.eat (fun later fewer' => ?_) ?_)
    (following.skips.eat (fun later fewer' => ?_) .refuse)
  · exact body later (by omega) (some name)
  · exact .lift (.namedType name) fun type later le => ⟨by omega, admits.taken (by omega)⟩
  · exact body later (by omega) none

theorem enumSpecifier_passes (following : Following bound R W) :
    Passes bound 1 1 nowhere anywhere R.enumSpecifier W.enumSpecifier := by
  intro r watch enough admits
  have body (later : DeclarationReader) (less : later.left + 1 ≤ r.left) (tag : Option String) :=
    defining ((following.enumerators 0 later watch (by omega) (admits.taken (by omega))).onward
      (r := r) (show later.left + 1 ≤ r.left + 1 by omega)) tag (DataType.enumeration tag · 4)
  refine following.skips.word
    (fun mid name fewer => following.skips.eat (fun later fewer' => ?_) ?_)
    (following.skips.eat (fun later fewer' => ?_) .refuse)
  · exact body later (by omega) (some name)
  · exact .lift (.namedType name) fun type later le => ⟨by omega, admits.taken (by omega)⟩
  · exact body later (by omega) none

theorem parameters_next (following : Following bound R W) :
    Passes (bound + 1) 4 1 anywhere anywhere R.body.parameters W.body.visited.parameters := by
  intro r watch enough admits
  refine .visit admits trivial fun watch admits => ?_
  refine following.skips.eat (fun later fewer => .pure ⟨by omega, admits.taken (by omega)⟩) ?_
  refine .look (.look (.ite (fun both => ?_) fun _ => ?_))
  · refine following.skips.skip (left_two both.2) fun later fewer => .pure ⟨by omega, ?_⟩
    exact admits.taken (by omega)
  · exact following.parameterList r watch (by omega) (admits.imp (by decide))

theorem parameterList_next (following : Following bound R W) :
    Passes (bound + 1) 3 1 (· ∈ [.parameterList, .specifiers]) anywhere R.body.parameterList
      W.body.visited.parameterList := by
  intro r watch enough admits
  refine .visit admits (by decide) fun watch admits => ?_
  refine .look (.ite (fun front => ?_) fun _ => ?_)
  · refine following.skips.skip (left_pos front) fun mid fewer => following.skips.expect ?_
    exact fun later fewer' => .pure ⟨by omega, admits.taken (by omega)⟩
  refine .call (following.typed false r watch (by omega) (admits.imp ?_))
    fun specified typed watch' le admits' => ?_
  · rintro _ rfl
    decide
  refine .call (following.declarator _ typed watch' (by omega) (admits'.imp (by decide)))
    fun declared named watch'' le' admits'' => ?_
  refine following.skips.eat (fun later fewer => .pure ⟨by omega, admits''.taken (by omega)⟩) ?_
  refine following.skips.expect fun later fewer => ?_
  exact (following.parameterList later watch'' (by omega)
    (admits''.taken (by omega))).returning (by omega) _

/-- What stands behind the suffixes of a declarator is no initializer. -/
theorem suffixed (following : Following bound R W) {r s : DeclarationReader} {watch : Watch}
    (le : s.left ≤ r.left) (enough : 4 * s.left + 1 ≤ bound)
    (admits : Admits watch (· = .suffixes) s.left)
    (make : Option (List Parameter × Bool) × List Word → DataType × Option String) :
    Follows s watch (R.suffixes none >>= fun found => look >>= fun later =>
        if later.peek? = some (.mark '=') then refuse "initializers are not supported"
        else pure (make found))
      (W.suffixes none >>= fun found => look >>= fun later =>
        if later.peek? = some (.mark '=') then refuse "initializers are not supported"
        else pure (make found))
      (Reached r 0 nowhere) :=
  .call (following.suffixes none s watch enough admits) fun found later watch' le' admits' =>
    .look (.ite (fun _ => .refuse) fun _ => .pure ⟨by omega, admits'⟩)

theorem declarator_next (following : Following bound R W) (base : DataType) :
    Passes (bound + 1) 2 0 (· ∈ [.declarator, .stars, .suffixes]) nowhere
      (R.body.declarator base) (W.body.visited.declarator base) := by
  intro r watch enough admits
  refine .visit admits (by decide) fun watch admits => .look ?_
  refine .call (following.stars _ (by decide) r watch (by omega) admits)
    fun inner mid watch' le admits' => ?_
  -- Stars are visited again behind a parenthesis only, and the suffixes but once.
  refine .look (.look (.ite (fun both => ?_) fun _ => ?_))
  · refine following.skips.skip (left_pos both.1) fun opened fewer => ?_
    refine .call (following.stars anywhere trivial opened watch' (by omega)
      (admits'.taken (by omega))) fun outer starred watch'' le' admits'' => ?_
    refine following.skips.word (fun named name fewer' => following.skips.expect fun closed less =>
      .given ?_) (following.skips.expect fun closed less => .given ?_)
    · exact following.suffixed (by omega) (by omega) (admits''.taken (by omega)) _
    · exact following.suffixed (by omega) (by omega) (admits''.taken (by omega)) _
  · refine following.skips.word (fun named name fewer => .given ?_) (.given ?_)
    · exact following.suffixed (by omega) (by omega) (admits'.taken (by omega)) _
    · exact following.suffixed (by omega) (by omega) (admits'.imp (by rintro _ rfl; decide)) _

theorem declaredNames_next (following : Following bound R W) (base : DataType) (isTypedef : Bool)
    (found : Declarations) :
    Passes (bound + 1) 3 1 (· ∈ [.declaredNames, .declarator, .stars, .suffixes]) anywhere
      (R.body.declaredNames base isTypedef found)
      (W.body.visited.declaredNames base isTypedef found) := by
  intro r watch enough admits
  refine .visit admits (by decide) fun watch admits => ?_
  refine .call (following.declarator base r watch (by omega) (admits.imp (by decide)))
    fun named mid watch' le admits' => ?_
  obtain ⟨type, _ | name⟩ := named
  · exact .refuse
  refine .plain (.qualify name) fun q mid' le' => ?_
  refine .plain (.declare isTypedef q type found) fun found later le'' => ?_
  refine following.skips.eat (fun last fewer => ?_) ?_
  · exact (following.declaredNames base isTypedef found last watch' (by omega)
      (admits'.taken (by omega))).onward (by omega)
  · exact following.skips.expect fun last fewer => .pure ⟨by omega, admits'.taken (by omega)⟩

theorem specified (following : Following bound R W) (allowTypedef : Bool) {s : Specifiers}
    {r : DeclarationReader} {watch : Watch} {free : Routine → Prop} {take : Nat}
    (enough : 4 * r.left ≤ bound) (admits : Admits watch free r.left) (one : take ≤ 1)
    (finished : Follows r watch (liftM (finishSpecifiers s)) (liftM (finishSpecifiers s))
      (Reached r take (· ≠ .specifiers))) :
    Follows r watch (R.body.specifiers allowTypedef s) (W.body.specifiers allowTypedef s)
      (Reached r take (· ≠ .specifiers)) := by
  refine .look ?_
  split
  next word front =>
    refine .look ?_
    split
    next =>
      refine following.skips.skip (left_pos front) fun mid fewer => ?_
      exact (following.specifiers allowTypedef _ mid watch (by omega)
        (admits.taken (by omega))).onward (by omega)
    next =>
      refine following.skips.skip (left_pos front) fun mid fewer => ?_
      refine .call (following.structSpecifier mid watch (by omega) (admits.taken (by omega)))
        fun type later watch' le admits' => ?_
      exact (following.specifiers allowTypedef _ later watch' (by omega) admits').onward (by omega)
    next =>
      refine following.skips.skip (left_pos front) fun mid fewer => ?_
      refine .call (following.enumSpecifier_passes mid watch (by omega) (admits.taken (by omega)))
        fun type later watch' le admits' => ?_
      exact (following.specifiers allowTypedef _ later watch' (by omega) admits').onward (by omega)
    next => exact finished
    next => exact .refuse
  next => exact finished

theorem specifiers_next (following : Following bound R W) (allowTypedef : Bool) (s : Specifiers) :
    Passes (bound + 1) 1 0 anywhere (· ≠ .specifiers) (R.body.specifiers allowTypedef s)
      (W.body.visited.specifiers allowTypedef s) := by
  intro r watch enough admits
  refine .visit admits trivial fun watch admits => ?_
  refine following.specified allowTypedef (by omega) admits (Nat.zero_le 1) ?_
  exact .lift (.finishSpecifiers s) fun _ later le =>
    ⟨le, (admits.later le).imp fun _ other => ⟨trivial, other⟩⟩

theorem typed_next (following : Following bound R W) (allowTypedef : Bool) :
    Passes (bound + 1) 1 1 (· = .specifiers) (· ≠ .specifiers)
      (R.body.specifiers allowTypedef .none) (W.body.visited.specifiers allowTypedef .none) := by
  intro r watch enough admits
  refine .visit admits rfl fun watch admits => ?_
  -- A word is taken at least, for without any there is no type.
  have refused : finishSpecifiers .none = fail "expected a type" := rfl
  refine following.specified allowTypedef (by omega) admits (Nat.le_refl 1) ?_
  rw [refused]
  exact .refuse

end Following

theorem watched_skip (fuel : Nat) : (watched fuel).skip = advance := by
  induction fuel with
  | zero => rfl
  | succ fuel ih => exact ih

theorem following {bound fuel g : Nat} (enough : bound ≤ fuel) (enough' : bound ≤ g) :
    Following bound (ofFuel fuel) (watched g) := by
  -- Every routine calls the others with one less, whatever the fuel on both sides.
  induction bound generalizing fuel g with
  | zero =>
    have never {α : Type} {more take : Nat} {before after : Routine → Prop} {x : Reading α}
        {y : Watched α} : Passes 0 (more + 1) take before after x y :=
      fun _ _ enough => absurd enough (Nat.not_succ_le_zero _)
    exact ⟨skips_advance rfl (watched_skip g), fun _ _ => never, fun _ => never, never, never,
      fun _ => never, fun _ => never, fun _ _ => never, fun _ => never, fun _ => never, never,
      never, never, fun _ _ _ => never⟩
  | succ bound next =>
    obtain ⟨fuel, rfl⟩ : ∃ k, fuel = k + 1 := ⟨fuel - 1, by omega⟩
    obtain ⟨g, rfl⟩ : ∃ k, g = k + 1 := ⟨g - 1, by omega⟩
    have ih : Following bound (ofFuel fuel) (watched g) := next (by omega) (by omega)
    rw [ofFuel_succ, watched]
    exact {
      skips := ih.skips
      specifiers := ih.specifiers_next
      typed := ih.typed_next
      structSpecifier := ih.structSpecifier_next
      structBody := ih.structBody_next
      memberNames := ih.memberNames_next
      enumerators := ih.enumerators_next
      stars := fun _ => ih.stars_next
      declarator := ih.declarator_next
      suffixes := ih.suffixes_next
      dimensions := ih.dimensions_next
      parameters := ih.parameters_next
      parameterList := ih.parameterList_next
      declaredNames := ih.declaredNames_next }

namespace Routines

variable {M : Type → Type} [Monad M] [MonadLiftT Reading M] (R : Routines M)

/-- The one declaration of a text. -/
def sole : M (DataType × QualifiedName) := do
  let (base, _) ← R.specifiers false .none
  let (type, name) ← R.declarator base
  discard (R.eat ';')
  if !(← (liftM atEnd : M Bool)) then refuse "unexpected trailing input"
  else
    match name <|> tagOf type with
    | none => refuse "declaration has no name"
    | some name => pure (type, ← liftM (qualify name))

/-- One round of a list of declarations. -/
def round (found : Declarations) : M Declarations := do
  if ← R.eat ';' then pure found
  else
    let (base, isTypedef) ← R.specifiers true .none
    if ← R.eat ';' then pure found
    else R.declaredNames base isTypedef found

theorem sole_ofFuel (fuel : Nat) : (ofFuel fuel).sole = soleDeclaration fuel := rfl

theorem round_ofFuel (fuel : Nat) (found : Declarations) :
    (ofFuel fuel).round found = nextDeclaration fuel found := rfl

end Routines

/-- Rounds of declarations to the end of the text, at most as many as are granted. -/
def rounds : Nat → Nat → Declarations → Watched Declarations
  | _, 0, _ => tooDeep
  | granted, fuel + 1, found => do
    if ← (liftM atEnd : Watched Bool) then pure found
    else if granted = 0 then throw (.internal "no round is left")
    else
      visit .declarations
      let found ← (watched fuel).round found
      rounds (granted - 1) fuel found

def listed (granted fuel : Nat) : Watched Declarations := do
  let found ← rounds granted fuel ⟨[], [], []⟩
  pure { found with types := (← (look : Watched DeclarationReader)).types }

theorem sole_follows {fuel : Nat} {r : DeclarationReader} {watch : Watch}
    (enough : 4 * r.left + 2 ≤ fuel) (admits : Admits watch anywhere r.left) :
    Follows r watch (ofFuel fuel).sole (watched fuel).sole fun _ later _ => later.left = 0 := by
  have routines : Following fuel (ofFuel fuel) (watched fuel) :=
    following (Nat.le_refl _) (Nat.le_refl _)
  refine .call (routines.typed false r watch (by omega) (admits.imp fun _ _ => trivial))
    fun specified typed watch' le admits' => ?_
  refine .call (routines.declarator _ typed watch' (by omega) (admits'.imp (by decide)))
    fun declared named watch'' le' admits'' => ?_
  obtain ⟨type, name⟩ := declared
  refine .discard (routines.skips.optional fun later found le'' => .atEnd (fun ended => ?_) ?_)
  · rw [if_neg (by decide), if_neg (by decide)]
    split
    next => exact .refuse
    next name same =>
      exact .plain (.qualify name) fun q last le₃ => .pure (by omega)
  · exact fun _ => .refuse

theorem round_follows {fuel : Nat} {r : DeclarationReader} {watch : Watch}
    (found : Declarations) (enough : 4 * r.left + 3 ≤ fuel)
    (admits : Admits watch (· ≠ .declarations) r.left) :
    Follows r watch ((ofFuel fuel).round found) ((watched fuel).round found)
      (Reached r 1 anywhere) := by
  have routines : Following fuel (ofFuel fuel) (watched fuel) :=
    following (Nat.le_refl _) (Nat.le_refl _)
  refine routines.skips.eat (fun later fewer => .pure ⟨by omega, admits.taken (by omega)⟩) ?_
  refine .call (routines.typed true r watch (by omega) (admits.imp (by rintro _ rfl; decide)))
    fun specified typed watch' le admits' => ?_
  refine routines.skips.eat (fun later fewer => .pure ⟨by omega, admits'.taken (by omega)⟩) ?_
  exact (routines.declaredNames _ _ found typed watch' (by omega) (admits'.imp (by decide))).onward
    (by omega)

theorem rounds_follow (fuel : Nat) {granted : Nat} {r : DeclarationReader} {watch : Watch}
    (found : Declarations) (enough : 4 * r.left + 4 ≤ fuel) (grants : r.left ≤ granted)
    (admits : Admits watch anywhere r.left) :
    Follows r watch (declarationList fuel found) (rounds granted fuel found)
      fun _ later _ => later.left = 0 := by
  induction fuel generalizing granted r watch found with
  | zero => omega
  | succ fuel ih =>
    rw [declarationList_eq, rounds]
    refine .atEnd (fun ended => .pure ended) fun more => ?_
    rw [if_neg Bool.false_ne_true, if_neg Bool.false_ne_true, if_neg (show granted ≠ 0 by omega)]
    refine .visit admits trivial fun watch admits => ?_
    rw [← round_ofFuel]
    refine .call (round_follows found (by omega) (admits.imp fun _ other => ⟨trivial, other⟩))
      fun found later watch' le admits' => ?_
    exact ih found (by omega) (by omega) admits'

/-- From here a reading goes on by so many tokens at least, or fails for what the text says; and
watched from here it does the same. -/
structure Progresses {α : Type} (r : DeclarationReader) (take : Nat) (x : Reading α)
    (y : Watched α) : Prop where
  refuses : ∀ e, x.run r = .error e → ∃ what, e = .parse what
  forward : ∀ a later, x.run r = .ok (a, later) →
    later.rest <:+ r.rest ∧ later.left + take ≤ r.left
  watched : (y.run' fun _ => r.left + 1).run r = x.run r

theorem Follows.progresses {α : Type} {r : DeclarationReader} {take : Nat} {x : Reading α}
    {y : Watched α} {post : α → DeclarationReader → Watch → Prop}
    (follows : Follows r (fun _ => r.left + 1) x y post)
    (takes : ∀ a later watch, post a later watch → later.left + take ≤ r.left) :
    Progresses r take x y := by
  refine ⟨fun e run => (follows.refuses e run).1, fun a later run => ?_, ?_⟩
  · obtain ⟨suffix, watch, -, given⟩ := follows.reaches a later run
    exact ⟨suffix, takes a later watch given⟩
  · rw [StateT.run'_eq, StateT.run_map]
    cases run : x.run r with
    | error e => rw [(follows.refuses e run).2]; rfl
    | ok reached =>
      obtain ⟨watch, other, -⟩ := (follows.reaches reached.1 reached.2 run).2
      rw [other]
      rfl

theorem Admits.fresh (n : Nat) : Admits (fun _ => n + 1) anywhere n :=
  fun _ => ⟨Nat.le_succ n, fun _ => Nat.lt_succ_self n⟩

theorem Passes.progresses {α : Type} {fuel more take : Nat} {before after : Routine → Prop}
    {x : Reading α} {y : Watched α} (passes : Passes fuel more take before after x y)
    {r : DeclarationReader} (enough : 4 * r.left + more ≤ fuel) : Progresses r take x y :=
  (passes r _ enough ((Admits.fresh r.left).imp fun _ _ => trivial)).progresses
    fun _ _ _ reached => reached.1

theorem fuelFor_left (r : DeclarationReader) : 4 * r.left + 4 ≤ fuelFor r.rest := by
  rw [left, fuelFor]
  omega

theorem singleDeclaration_follows (r : DeclarationReader) :
    Follows r (fun _ => r.left + 1) singleDeclaration (watched (fuelFor r.rest)).sole
      fun _ later _ => later.left = 0 := by
  have whole := sole_follows (Nat.le_of_add_right_le (k := 2) (fuelFor_left r))
    (Admits.fresh r.left)
  rw [sole_ofFuel] at whole
  refine ⟨fun e run => whole.refuses e ?_, fun a later run => whole.reaches a later ?_⟩
  · rwa [← run_singleDeclaration]
  · rwa [← run_singleDeclaration]

theorem allDeclarations_follows (r : DeclarationReader) :
    Follows r (fun _ => r.left + 1) allDeclarations (listed r.left (fuelFor r.rest))
      fun _ later _ => later.left = 0 := by
  have whole := rounds_follow _ ⟨[], [], []⟩ (fuelFor_left r) (Nat.le_refl _) (Admits.fresh r.left)
  have listed : Follows r (fun _ => r.left + 1)
      (declarationList (fuelFor r.rest) ⟨[], [], []⟩ >>= fun found => look >>= fun later =>
        pure { found with types := later.types }) (listed r.left (fuelFor r.rest))
      fun _ later _ => later.left = 0 :=
    .bind (whole.weaken fun found later watch ended => .look (.pure ended))
  have same : (allDeclarations).run r =
      (declarationList (fuelFor r.rest) ⟨[], [], []⟩ >>= fun found => look >>= fun later =>
        pure { found with types := later.types } : Reading Declarations).run r := by
    rw [run_allDeclarations, StateT.run_bind]
    rfl
  refine ⟨fun e run => listed.refuses e ?_, fun a later run => listed.reaches a later ?_⟩
  · rwa [← same]
  · rwa [← same]

theorem run_of_read {α : Type} {x : Reading α} {context : DeclarationContext} {text : String}
    {answer : α} (read : start text context >>= x.run' = .ok answer) :
    ∃ r later, start text context = .ok r ∧ x.run r = .ok (answer, later) := by
  cases started : start text context with
  | error e => rw [started] at read; cases read
  | ok r =>
    rw [started] at read
    replace read : Prod.fst <$> x.run r = .ok answer := read
    cases run : x.run r with
    | error e => rw [run] at read; cases read
    | ok reached =>
      rw [run] at read
      obtain rfl := Except.ok.inj read
      exact ⟨r, reached.2, rfl, run⟩

theorem Progresses.ended {α : Type} {r later : DeclarationReader} {x : Reading α} {y : Watched α}
    {answer : α} (progresses : Progresses r r.left x y) (run : x.run r = .ok (answer, later)) :
    later.rest = [] := by
  have forward := (progresses.forward answer later run).2
  exact List.length_eq_zero_iff.1 (show later.left = 0 by omega)

theorem whole_progresses (r : DeclarationReader) :
    Progresses r r.left singleDeclaration (watched (fuelFor r.rest)).sole ∧
      Progresses r r.left allDeclarations (listed r.left (fuelFor r.rest)) :=
  ⟨(singleDeclaration_follows r).progresses fun _ _ _ ended => by omega,
    (allDeclarations_follows r).progresses fun _ _ _ ended => by omega⟩

/-- The readers of declarations never stand still. With fuel for the tokens that are left each of
them ends, the same however much more there is; it goes forward, by a token at least if it has to
find something, and takes only tokens that are there. Between two visits of one routine, in a loop
or by recursion, a token is taken: the watched reader gives up otherwise, and it does the same. A
list of declarations needs a round for each token at most, and what is accepted is read to its
end. -/
theorem reading_progresses :
    (∀ fuel, ofFuel (fuel + 1) = (ofFuel fuel).body ∧
      watched (fuel + 1) = (watched fuel).body.visited) ∧
    (∀ (r : DeclarationReader) (fuel g : Nat), 4 * r.left + 4 ≤ fuel → 4 * r.left + 4 ≤ g →
      (∀ allowTypedef, Progresses r 1 (specifiers allowTypedef fuel .none)
        ((watched g).specifiers allowTypedef .none)) ∧
      Progresses r 1 (structSpecifier fuel) (watched g).structSpecifier ∧
      Progresses r 1 (enumSpecifier fuel) (watched g).enumSpecifier ∧
      (∀ base, Progresses r 0 (declarator base fuel) ((watched g).declarator base)) ∧
      Progresses r 1 (parameters fuel) (watched g).parameters) ∧
    (∀ r : DeclarationReader,
      Progresses r r.left singleDeclaration (watched (fuelFor r.rest)).sole ∧
      Progresses r r.left allDeclarations (listed r.left (fuelFor r.rest))) ∧
    ∀ (context : DeclarationContext) (text : String),
      (∀ answer, context.parseType text = .ok answer → ∃ r later, start text context = .ok r ∧
        (singleDeclaration).run r = .ok (answer, later) ∧ later.rest = []) ∧
      ∀ found, context.parseTypes text = .ok found → ∃ r later, start text context = .ok r ∧
        (allDeclarations).run r = .ok (found, later) ∧ later.rest = [] := by
  refine ⟨fun fuel => ⟨ofFuel_succ fuel, rfl⟩, fun r fuel g enough enough' => ?_, whole_progresses,
    fun context text => ⟨fun answer read => ?_, fun found read => ?_⟩⟩
  · have routines : Following (4 * r.left + 4) (ofFuel fuel) (watched g) :=
      following enough enough'
    exact ⟨fun allowTypedef => (routines.typed allowTypedef).progresses (by omega),
      routines.structSpecifier.progresses (by omega),
      routines.enumSpecifier_passes.progresses (by omega),
      fun base => (routines.declarator base).progresses (by omega),
      routines.parameters.progresses (by omega)⟩
  · obtain ⟨r, later, started, run⟩ := run_of_read read
    exact ⟨r, later, started, run, (whole_progresses r).1.ended run⟩
  · obtain ⟨r, later, started, run⟩ := run_of_read read
    exact ⟨r, later, started, run, (whole_progresses r).2.ended run⟩

/-- In front of a pointer to a number. -/
def pointerReader : DeclarationReader :=
  ⟨[⟨.word "int", 0⟩, ⟨.mark '*', 4⟩, ⟨.word "x", 5⟩, ⟨.mark ';', 6⟩], 7, ⟨8, .empty⟩, []⟩

theorem pointer_reading_progresses :
    Progresses pointerReader 1 (specifiers false 20 .none)
        ((watched 24).specifiers false .none) ∧
      ∃ answer r later, start "int *x;" ⟨8, .empty⟩ = .ok r ∧
        (singleDeclaration).run r = .ok (answer, later) ∧ later.rest = [] := by
  have accepted : ((⟨8, .empty⟩ : DeclarationContext).parseType "int *x;").toOption.isSome := by
    decide +kernel
  refine ⟨(reading_progresses.2.1 pointerReader 20 24 (by decide) (by decide)).1 false, ?_⟩
  cases read : (⟨8, .empty⟩ : DeclarationContext).parseType "int *x;" with
  | error e => rw [read] at accepted; cases accepted
  | ok answer => exact ⟨answer, (reading_progresses.2.2.2 ⟨8, .empty⟩ "int *x;").1 answer read⟩

end DeclarationReader

end BinaryAtlas
