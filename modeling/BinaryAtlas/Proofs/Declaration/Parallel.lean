import BinaryAtlas.Proofs.Declaration.Reading
import BinaryAtlas.Proofs.TableSearch

/-!
Two readings side by side, with the same tokens in front and perhaps others behind those. As long as
the first one stays among the shared tokens, the second does what it does. There is one rule for
each way to put readers together, and one for each of those that all others are made of.
-/

set_option autoImplicit false

namespace BinaryAtlas

namespace DeclarationContext

def grown (c : DeclarationContext) (types : List (QualifiedName × DataType)) :
    DeclarationContext :=
  c.withTypes (types.map fun t => (t.1.text, t.2))

theorem grown_append (c : DeclarationContext) (front back : List (QualifiedName × DataType)) :
    c.grown (front ++ back) = (c.grown front).grown back := by
  simp [grown, withTypes, List.foldl_append]

theorem grown_cons (c : DeclarationContext) (t : QualifiedName × DataType)
    (types : List (QualifiedName × DataType)) :
    c.grown (t :: types) = (c.grown [t]).grown types := rfl

theorem known_grown_congr {c d : DeclarationContext} {w : String}
    (same : c.known.get? w = d.known.get? w) (types : List (QualifiedName × DataType)) :
    (c.grown types).known.get? w = (d.grown types).known.get? w := by
  induction types generalizing c d with
  | nil => exact same
  | cons t rest ih =>
    rw [grown_cons c, grown_cons d]
    apply ih
    show (c.known.insert t.1.text t.2.width).get? w = (d.known.insert t.1.text t.2.width).get? w
    rw [Table.get?_insert, Table.get?_insert, same]

theorem known_grown_of_notMem {c : DeclarationContext} {w : String}
    {types : List (QualifiedName × DataType)} (other : w ∉ types.map (·.1.text)) :
    (c.grown types).known.get? w = c.known.get? w := by
  induction types generalizing c with
  | nil => rfl
  | cons t rest ih =>
    obtain ⟨first, others⟩ := not_or.1 (mt List.mem_cons.2 other)
    rw [grown_cons, ih others]
    exact (Table.get?_insert _ _ _ _).trans (if_neg first)

end DeclarationContext

/-- A word that is a name as it stands, and that two contexts know the same of. -/
structure SharedWord (c d : DeclarationContext) (w : String) : Prop where
  known : c.known.get? w = d.known.get? w
  name : ∃ q, QualifiedName.parse w = .ok q ∧ q.text = w

/-- All words are names as they stand. -/
def WellNamed (tokens : List CToken) : Prop :=
  ∀ w, .word w ∈ tokens → ∃ q, QualifiedName.parse w = .ok q ∧ q.text = w

theorem WellNamed.text_eq {tokens : List CToken} (proper : WellNamed tokens) {w : String}
    (member : .word w ∈ tokens) {q : QualifiedName} (named : QualifiedName.parse w = .ok q) :
    q.text = w := by
  obtain ⟨q', named', text⟩ := proper w member
  rwa [Except.ok.inj (named.symm.trans named')]

structure Scene where
  context : DeclarationContext
  types : List (QualifiedName × DataType)
  tokens : List CToken

namespace Scene

def onward (o : Scene) (shared : List CToken) (noted : List (QualifiedName × DataType)) : Scene :=
  ⟨o.context.grown noted, o.types ++ noted, shared ++ o.tokens⟩

end Scene

namespace DeclarationReader

def scene (r : DeclarationReader) : Scene := ⟨r.context, r.types, r.tokens⟩

variable {α β : Type} {o p : Scene} {r s : DeclarationReader}

/-- Two readers have noted the same types since their origins and have the same tokens in front of
what stood there. -/
structure Alike (o p : Scene) (r s : DeclarationReader) : Prop where
  size : o.context.addressSize = p.context.addressSize
  reached : ∃ shared noted, r.scene = o.onward shared noted ∧ s.scene = p.onward shared noted

theorem Alike.start (size : o.context.addressSize = p.context.addressSize) (shared : List CToken)
    (left : r.scene = ⟨o.context, o.types, shared ++ o.tokens⟩)
    (right : s.scene = ⟨p.context, p.types, shared ++ p.tokens⟩) : Alike o p r s := by
  refine ⟨size, shared, [], ?_, ?_⟩
  · rw [left, Scene.onward, List.append_nil]
    rfl
  · rw [right, Scene.onward, List.append_nil]
    rfl

/-- What may be read is made of words that mean the same from both origins. -/
def Shares (o p : Scene) (r : DeclarationReader) : Prop :=
  ∀ w, .word w ∈ r.tokens → SharedWord o.context p.context w

theorem Shares.later (shares : Shares o p r) {later : DeclarationReader}
    (suffix : later.tokens <:+ r.tokens) : Shares o p later :=
  fun w member => shares w (suffix.mem member)

theorem Alike.moved (alike : Alike o p r s) (move : List CToken → List CToken)
    {rest rest' : List PlacedToken}
    (left : ({ r with rest := rest } : DeclarationReader).tokens = move r.tokens)
    (right : ({ s with rest := rest' } : DeclarationReader).tokens = move s.tokens)
    (moves : ∀ shared, r.tokens = shared ++ o.tokens → ∃ fewer,
      move (shared ++ o.tokens) = fewer ++ o.tokens ∧
        move (shared ++ p.tokens) = fewer ++ p.tokens) :
    Alike o p { r with rest := rest } { s with rest := rest' } := by
  obtain ⟨shared, noted, left_scene, right_scene⟩ := alike.reached
  obtain ⟨left_context, left_types, left_tokens⟩ := Scene.mk.inj left_scene
  obtain ⟨right_context, right_types, right_tokens⟩ := Scene.mk.inj right_scene
  obtain ⟨fewer, kept, kept'⟩ := moves shared left_tokens
  refine ⟨alike.size, fewer, noted, ?_, ?_⟩
  · rw [scene, left, left_tokens, kept]
    exact congrArg₂ (Scene.mk · · _) left_context left_types
  · rw [scene, right, right_tokens, kept']
    exact congrArg₂ (Scene.mk · · _) right_context right_types

/-- Both origins are the end of what is read. -/
def Ended (o p : Scene) : Prop := o.tokens = [] ∧ p.tokens = []

/-- What is left, without some tokens in front, still begins among the shared ones. -/
def Within (o p : Scene) (look : Nat) (later : DeclarationReader) : Prop :=
  Ended o p ∨ o.tokens.length + look ≤ later.tokens.length

/-- From a reader, the first reading takes some tokens or more and depends on so many behind them
only. Where those are shared, the second reading does the same from every reader that is alike. -/
structure Beside (o p : Scene) (look take : Nat) (r : DeclarationReader) (x y : Reading α) :
    Prop where
  refuses : ∀ e, x.run r = .error e → ∃ text, e = .parse text
  takes : ∀ a later, x.run r = .ok (a, later) →
    later.tokens <:+ r.tokens ∧ later.tokens.length + take ≤ r.tokens.length
  agrees : ∀ s, Alike o p r s → ∀ a later, x.run r = .ok (a, later) → Within o p look later →
    ∃ after, y.run s = .ok (a, after) ∧ Alike o p later after
  fails : ∀ s, Alike o p r s → Ended o p → ∀ e, x.run r = .error e → ∃ e', y.run s = .error e'

/-- Two readings are beside each other from all readers with room for some tokens at most. -/
def Parallel (o p : Scene) (room look take : Nat) (x y : Reading α) : Prop :=
  ∀ r, r.tokens.length ≤ room → Shares o p r → Beside o p look take r x y

section Front

/-! What is in front of two readers that are alike. -/

theorem peek?_eq (r : DeclarationReader) : r.peek? = r.tokens.head? := by
  rw [peek?, tokens, List.head?_map]

theorem peekSecond?_eq (r : DeclarationReader) : r.peekSecond? = r.tokens[1]? := by
  rw [peekSecond?, tokens, List.getElem?_map]

/-- So many tokens are the same in front of two readers, who know the same of shared words. -/
structure Level (o p : Scene) (depth : Nat) (r s : DeclarationReader) : Prop where
  front : r.tokens.take depth = s.tokens.take depth
  size : r.context.addressSize = s.context.addressSize
  known : ∀ w, SharedWord o.context p.context w →
    r.context.known.get? w = s.context.known.get? w

theorem Level.refl (depth : Nat) : Level o p depth r r := ⟨rfl, rfl, fun _ _ => rfl⟩

theorem Level.peek {depth : Nat} (level : Level o p (depth + 1) r s) : r.peek? = s.peek? := by
  have same := congrArg List.head? level.front
  rwa [List.head?_take, List.head?_take, if_neg (by omega), if_neg (by omega), ← peek?_eq,
    ← peek?_eq] at same

theorem Level.peekSecond (level : Level o p 2 r s) : r.peekSecond? = s.peekSecond? := by
  have same := congrArg (fun tokens : List CToken => tokens[1]?) level.front
  simpa [peekSecond?_eq, List.getElem?_take] using same

theorem Alike.tokens_length (alike : Alike o p r s) :
    r.tokens.length + p.tokens.length = s.tokens.length + o.tokens.length := by
  obtain ⟨shared, noted, left, right⟩ := alike.reached
  have left_tokens : r.tokens = shared ++ o.tokens := congrArg Scene.tokens left
  have right_tokens : s.tokens = shared ++ p.tokens := congrArg Scene.tokens right
  rw [left_tokens, right_tokens, List.length_append, List.length_append]
  omega

theorem Alike.level (alike : Alike o p r s) {depth : Nat} (within : Within o p depth r) :
    Level o p depth r s := by
  obtain ⟨shared, noted, left, right⟩ := alike.reached
  have left_context : r.context = o.context.grown noted := congrArg Scene.context left
  have right_context : s.context = p.context.grown noted := congrArg Scene.context right
  have left_tokens : r.tokens = shared ++ o.tokens := congrArg Scene.tokens left
  have right_tokens : s.tokens = shared ++ p.tokens := congrArg Scene.tokens right
  refine ⟨?_, ?_, fun w word => ?_⟩
  · obtain ⟨left_end, right_end⟩ | deep := within
    · rw [left_tokens, right_tokens, left_end, right_end]
    · rw [left_tokens, List.length_append] at deep
      rw [left_tokens, right_tokens, List.take_append_of_le_length (by omega),
        List.take_append_of_le_length (by omega)]
  · rw [left_context, right_context]
    exact alike.size
  · rw [left_context, right_context]
    exact DeclarationContext.known_grown_congr word.known noted

end Front

section Run

/-! What a run makes of the tokens in front. -/

theorem run_bind_ok {x : Reading α} {a : α} {mid : DeclarationReader}
    (run : x.run r = .ok (a, mid)) (f : α → Reading β) : (x >>= f).run r = (f a).run mid := by
  rw [StateT.run_bind, run]
  rfl

theorem run_bind_error {x : Reading α} {e : AtlasError} (run : x.run r = .error e)
    (f : α → Reading β) : (x >>= f).run r = .error e := by
  rw [StateT.run_bind, run]
  rfl

theorem run_eat (c : Char) (f : Bool → Reading β) (r : DeclarationReader) :
    (eat c >>= f).run r =
      (if r.peek? = some (.mark c) then drop 1 >>= fun _ => f true else f false).run r := by
  rw [eat, StateT.run_bind, StateT.run_bind, StateT.run_get, pure_bind]
  split <;> rfl

theorem run_word (f : Option String → Reading β) (r : DeclarationReader) :
    (word? >>= f).run r =
      (match r.peek? with
        | some (.word w) => drop 1 >>= fun _ => f (some w)
        | _ => f none).run r := by
  rw [word?, StateT.run_bind, StateT.run_bind, StateT.run_get, pure_bind]
  cases r.peek? with
  | none => rfl
  | some t => cases t <;> rfl

theorem length_pos_of_peek {t : CToken} (front : r.peek? = some t) : 1 ≤ r.tokens.length := by
  rw [peek?_eq] at front
  exact List.length_pos_of_mem (List.mem_of_head? front)

theorem word_mem_of_peek {w : String} (front : r.peek? = some (.word w)) : .word w ∈ r.tokens := by
  rw [peek?_eq] at front
  exact List.mem_of_head? front

end Run

namespace Beside

variable {look take : Nat} {x y : Reading α} {f g : α → Reading β}

theorem pure (look : Nat) (a : α) : Beside o p look 0 r (pure a) (pure a) where
  refuses _ run := by cases run
  takes b later run := by
    obtain ⟨-, rfl⟩ := Prod.mk.inj (Except.ok.inj run)
    exact ⟨List.suffix_refl _, Nat.le_refl _⟩
  agrees s alike b later run _ := by
    obtain ⟨rfl, rfl⟩ := Prod.mk.inj (Except.ok.inj run)
    exact ⟨s, rfl, alike⟩
  fails _ _ _ _ run := by cases run

theorem throw (text text' : String) :
    Beside o p look take r (throw (.parse text) : Reading α) (throw (.parse text')) where
  refuses _ run := ⟨text, (Except.error.inj run).symm⟩
  takes _ _ run := by cases run
  agrees _ _ _ _ run := by cases run
  fails _ _ _ _ _ := ⟨.parse text', rfl⟩

theorem fail (what : String) : Beside o p look take r (fail what : Reading α) (fail what) where
  refuses _ run := ⟨_, (Except.error.inj run).symm⟩
  takes _ _ run := by cases run
  agrees _ _ _ _ run := by cases run
  fails _ _ _ _ _ := ⟨_, rfl⟩

theorem weaken {look' take' : Nat} (beside : Beside o p look take r x y)
    (further : look ≤ look') (less : take' ≤ take) : Beside o p look' take' r x y where
  refuses := beside.refuses
  takes a later run := by
    obtain ⟨suffix, taken⟩ := beside.takes a later run
    exact ⟨suffix, by omega⟩
  agrees s alike a later run within :=
    beside.agrees s alike a later run (within.imp_right (by omega))
  fails := beside.fails

/-- The first reading may look as far as the second one takes or looks. -/
theorem bind {looked taken whole : Nat} (first : Beside o p looked taken r x y)
    (next : ∀ a mid, mid.tokens <:+ r.tokens → mid.tokens.length + taken ≤ r.tokens.length →
      Beside o p look take mid (f a) (g a))
    (seen : looked ≤ look + take) (total : whole ≤ taken + take) :
    Beside o p look whole r (x >>= f) (y >>= g) := by
  cases front : x.run r with
  | error e =>
    have stops := run_bind_error front f
    refine ⟨fun e' run => ?_, fun a later run => ?_, fun _ _ a later run => ?_,
      fun s alike ended e' run => ?_⟩
    · obtain rfl := Except.error.inj (stops.symm.trans run)
      exact first.refuses e front
    · rw [stops] at run; cases run
    · rw [stops] at run; cases run
    · obtain ⟨e'', other⟩ := first.fails s alike ended e front
      exact ⟨e'', run_bind_error other g⟩
  | ok reached =>
    obtain ⟨a, mid⟩ := reached
    have goes := run_bind_ok front f
    obtain ⟨suffix, some_taken⟩ := first.takes a mid front
    have rest := next a mid suffix some_taken
    have follows (s : DeclarationReader) (alike : Alike o p r s) (within : Within o p looked mid) :
        ∃ after, (y >>= g).run s = (g a).run after ∧ Alike o p mid after := by
      obtain ⟨after, run, alike⟩ := first.agrees s alike a mid front within
      exact ⟨after, run_bind_ok run g, alike⟩
    refine ⟨fun e run => ?_, fun b later run => ?_, fun s alike b later run within => ?_,
      fun s alike ended e run => ?_⟩
    · exact rest.refuses e (goes.symm.trans run)
    · obtain ⟨more, more_taken⟩ := rest.takes b later (goes.symm.trans run)
      exact ⟨more.trans suffix, by omega⟩
    · have more := (rest.takes b later (goes.symm.trans run)).2
      obtain ⟨after, other, alike⟩ := follows s alike (within.imp_right (by omega))
      obtain ⟨last, run, alike⟩ := rest.agrees after alike b later (goes.symm.trans run) within
      exact ⟨last, other.trans run, alike⟩
    · obtain ⟨after, other, alike⟩ := follows s alike (.inl ended)
      obtain ⟨e', run⟩ := rest.fails after alike ended e (goes.symm.trans run)
      exact ⟨e', other.trans run⟩

/-- Looking ahead as far as what follows takes or looks, the second reader sees what the first one
sees. -/
theorem level (depth : Nat)
    (next : ∀ s, Level o p depth r s → ∃ x' y', x.run r = x'.run r ∧ y.run s = y'.run s ∧
      Beside o p look take r x' y')
    (seen : depth ≤ look + take) : Beside o p look take r x y where
  refuses := by
    obtain ⟨x', y', left, -, beside⟩ := next r (.refl depth)
    exact left ▸ beside.refuses
  takes := by
    obtain ⟨x', y', left, -, beside⟩ := next r (.refl depth)
    exact left ▸ beside.takes
  agrees s alike a later run within := by
    have taken : later.tokens.length + take ≤ r.tokens.length := by
      obtain ⟨x', y', left, -, beside⟩ := next r (.refl depth)
      exact (beside.takes a later (left ▸ run)).2
    have level : Level o p depth r s := alike.level (within.imp_right (by omega))
    obtain ⟨x', y', left, right, beside⟩ := next s level
    exact right ▸ beside.agrees s alike a later (left ▸ run) within
  fails s alike ended e run := by
    obtain ⟨x', y', left, right, beside⟩ := next s (alike.level (.inl ended))
    exact right ▸ beside.fails s alike ended e (left ▸ run)

theorem congr {x' y' : Reading α} (beside : Beside o p look take r x' y')
    (left : x.run r = x'.run r) (right : ∀ s, Level o p 0 r s → y.run s = y'.run s) :
    Beside o p look take r x y :=
  .level 0 (fun s level => ⟨x', y', left, right s level, beside⟩) (Nat.zero_le _)

theorem get (depth : Nat) {f g : DeclarationReader → Reading β}
    (next : ∀ s, Level o p depth r s → Beside o p look take r (f r) (g s))
    (seen : depth ≤ look + take) : Beside o p look take r (get >>= f) (get >>= g) :=
  .level depth (fun s level => ⟨f r, g s, rfl, rfl, next s level⟩) seen

theorem modify {g : DeclarationReader → DeclarationReader} (suffix : (g r).tokens <:+ r.tokens)
    (taken : (g r).tokens.length + take ≤ r.tokens.length)
    (alike : ∀ s, Alike o p r s → Within o p look (g r) → Alike o p (g r) (g s)) :
    Beside o p look take r (modify g) (modify g) where
  refuses _ run := by cases run
  takes a later run := by
    obtain ⟨-, rfl⟩ := Prod.mk.inj (Except.ok.inj run)
    exact ⟨suffix, taken⟩
  agrees s before a later run within := by
    obtain ⟨-, rfl⟩ := Prod.mk.inj (Except.ok.inj run)
    exact ⟨g s, rfl, alike s before within⟩
  fails _ _ _ _ run := by cases run

theorem drop {n : Nat} (there : n ≤ r.tokens.length) : Beside o p 0 n r (drop n) (drop n) := by
  have left (t : DeclarationReader) :
      ({ t with rest := t.rest.drop n } : DeclarationReader).tokens = t.tokens.drop n :=
    List.map_drop
  refine .modify ?_ ?_ fun s alike within => alike.moved (List.drop n) (left r) (left s) ?_
  · rw [left]
    exact List.drop_suffix _ _
  · rw [left, List.length_drop]
    omega
  · intro shared tokens
    have total := congrArg List.length tokens
    rw [List.length_append] at total
    -- All that is dropped is shared.
    have short : n ≤ shared.length := by
      obtain ⟨ended, -⟩ | room := within
      · rw [ended, List.length_nil] at total
        omega
      · rw [left, List.length_drop] at room
        omega
    exact ⟨shared.drop n, List.drop_append_of_le_length short, List.drop_append_of_le_length short⟩

theorem next {room look take : Nat} {f g : Unit → Reading β} (small : r.tokens.length ≤ room)
    (shares : Shares o p r) {t : CToken} (front : r.peek? = some t)
    (rest : ∀ m, room = m + 1 → Parallel o p m look (take - 1) (f ()) (g ())) :
    Beside o p look take r (DeclarationReader.drop 1 >>= f) (DeclarationReader.drop 1 >>= g) := by
  have some_left := length_pos_of_peek front
  obtain ⟨m, rfl⟩ : ∃ m, room = m + 1 := ⟨room - 1, by omega⟩
  have dropped : Beside o p 0 1 r (DeclarationReader.drop 1) (DeclarationReader.drop 1) :=
    .drop some_left
  have goes_on (_ : Unit) (mid : DeclarationReader) (suffix : mid.tokens <:+ r.tokens)
      (taken : mid.tokens.length + 1 ≤ r.tokens.length) :
      Beside o p look (take - 1) mid (f ()) (g ()) :=
    rest m rfl mid (by omega) (shares.later suffix)
  exact dropped.bind goes_on (Nat.zero_le _) (by omega)

theorem eat_found {room look take : Nat} {c : Char} {f g : Bool → Reading β}
    (small : r.tokens.length ≤ room) (shares : Shares o p r) (front : r.peek? = some (.mark c))
    (rest : ∀ m, room = m + 1 → Parallel o p m look (take - 1) (f true) (g true))
    (seen : 1 ≤ look + take) :
    Beside o p look take r (DeclarationReader.eat c >>= f) (DeclarationReader.eat c >>= g) := by
  refine .level 1 (fun s level => ⟨_, _, run_eat c f r, run_eat c g s, ?_⟩) seen
  rw [← level.peek, if_pos front, if_pos front]
  exact .next small shares front rest

theorem eat_missing {look take : Nat} {c : Char} {f g : Bool → Reading β}
    (front : r.peek? ≠ some (.mark c)) (rest : Beside o p look take r (f false) (g false))
    (seen : 1 ≤ look + take) :
    Beside o p look take r (DeclarationReader.eat c >>= f) (DeclarationReader.eat c >>= g) := by
  refine .level 1 (fun s level => ⟨_, _, run_eat c f r, run_eat c g s, ?_⟩) seen
  rwa [← level.peek, if_neg front, if_neg front]

theorem word_missing {look take : Nat} {f g : Option String → Reading β}
    (front : ∀ w, r.peek? ≠ some (.word w)) (rest : Beside o p look take r (f none) (g none))
    (seen : 1 ≤ look + take) : Beside o p look take r (word? >>= f) (word? >>= g) := by
  refine .level 1 (fun s level => ⟨_, _, run_word f r, run_word g s, ?_⟩) seen
  rw [← level.peek]
  split
  next w found => exact absurd found (front w)
  next => exact rest

end Beside

namespace Parallel

variable {room look take : Nat} {x y : Reading α} {f g : α → Reading β}

theorem pure (look : Nat) (a : α) : Parallel o p room look 0 (pure a) (pure a) :=
  fun _ _ _ => .pure look a

theorem fail (what : String) : Parallel o p room look take (fail what : Reading α) (fail what) :=
  fun _ _ _ => .fail what

theorem weaken {look' take' : Nat} (parallel : Parallel o p room look take x y)
    (further : look ≤ look') (less : take' ≤ take) : Parallel o p room look' take' x y :=
  fun r small shares => (parallel r small shares).weaken further less

theorem less (parallel : Parallel o p room look (take + 1) x y) :
    Parallel o p room look take x y :=
  parallel.weaken (Nat.le_refl _) (Nat.le_succ _)

theorem bind {looked taken : Nat} (first : Parallel o p room looked taken x y)
    (next : ∀ a, Parallel o p (room - taken) look (take - taken) (f a) (g a))
    (seen : looked ≤ look + (take - taken)) :
    Parallel o p room look take (x >>= f) (y >>= g) := fun r small shares =>
  .bind (first r small shares)
    (fun a mid suffix less => next a mid (by omega) (shares.later suffix)) seen (by omega)

theorem given {a : α} (next : Parallel o p room look take (f a) (g a)) :
    Parallel o p room look take (Pure.pure a >>= f) (Pure.pure a >>= g) :=
  next

theorem get (depth : Nat) {f g : DeclarationReader → Reading β}
    (next : ∀ r, r.tokens.length ≤ room → Shares o p r → ∀ s, Level o p depth r s →
      Beside o p look take r (f r) (g s))
    (seen : depth ≤ look + take) : Parallel o p room look take (get >>= f) (get >>= g) :=
  fun r small shares => .get depth (next r small shares) seen

theorem eat {c : Char} {f g : Bool → Reading β}
    (found : ∀ m, room = m + 1 → Parallel o p m look (take - 1) (f true) (g true))
    (missing : Parallel o p room look take (f false) (g false)) (seen : 1 ≤ look + take) :
    Parallel o p room look take (eat c >>= f) (eat c >>= g) := by
  intro r small shares
  refine .level 1 (fun s level => ⟨_, _, DeclarationReader.run_eat c f r, run_eat c g s, ?_⟩) seen
  rw [← level.peek]
  split
  next front => exact .next small shares front found
  next => exact missing r small shares

/-- Whether the mark is there or not, the same goes on behind it. -/
theorem optional {c : Char} {f g : Bool → Reading β}
    (rest : ∀ found m, m ≤ room → Parallel o p m look take (f found) (g found))
    (seen : 1 ≤ look + take) :
    Parallel o p room look take (DeclarationReader.eat c >>= f) (DeclarationReader.eat c >>= g) :=
  .eat (fun m more => (rest true m (by omega)).weaken (Nat.le_refl _) (Nat.sub_le _ _))
    (rest false room (Nat.le_refl _)) seen

theorem expect {c : Char} {f g : Unit → Reading β}
    (next : ∀ m, room = m + 1 → Parallel o p m look (take - 1) (f ()) (g ())) :
    Parallel o p room look take (expect c >>= f) (expect c >>= g) := by
  have parts (f : Unit → Reading β) : DeclarationReader.expect c >>= f =
      DeclarationReader.eat c >>= fun found =>
        if found then f () else DeclarationReader.fail ("expected '" ++ c.toString ++ "'") := by
    rw [DeclarationReader.expect, bind_assoc]
    congr 1
    funext found
    cases found <;> rfl
  rw [parts, parts]
  cases take with
  | zero => exact .less (.eat next (.fail _) (Nat.le_add_left 1 look))
  | succ take => exact .eat next (.fail _) (by omega)

theorem word {f g : Option String → Reading β}
    (found : ∀ m w, room = m + 1 → SharedWord o.context p.context w →
      Parallel o p m look (take - 1) (f (some w)) (g (some w)))
    (missing : Parallel o p room look take (f none) (g none)) (seen : 1 ≤ look + take) :
    Parallel o p room look take (word? >>= f) (word? >>= g) := by
  intro r small shares
  refine .level 1 (fun s level => ?_) seen
  refine ⟨_, _, run_word f r, run_word g s, ?_⟩
  rw [← level.peek]
  cases front : r.peek? with
  | none => exact missing r small shares
  | some t =>
    cases t with
    | word w =>
      have shared := shares w (word_mem_of_peek front)
      exact .next small shares front fun m more => found m w more shared
    | number n => exact missing r small shares
    | mark c => exact missing r small shares
    | ellipsis => exact missing r small shares

theorem atEnd {f g : Bool → Reading β}
    (next : ∀ ended, Parallel o p room look take (f ended) (g ended)) (seen : 1 ≤ look + take) :
    Parallel o p room look take (atEnd >>= f) (atEnd >>= g) := by
  have ended (t : DeclarationReader) : t.rest.isEmpty = t.peek?.isNone := by
    rw [peek?]
    cases t.rest <;> rfl
  refine .get 1 (fun r small shares s level => ?_) seen
  show Beside o p look take r (f r.rest.isEmpty) (g s.rest.isEmpty)
  rw [ended r, ended s, level.peek]
  exact next _ r small shares

theorem skipIgnored : Parallel o p room 1 0 skipIgnored skipIgnored := by
  -- Whether a token is skipped does not depend on where it stands.
  let ignored (t : CToken) : Bool := isIgnored ⟨t, 0⟩
  have left (t : DeclarationReader) :
      ({ t with rest := t.rest.dropWhile isIgnored } : DeclarationReader).tokens =
        t.tokens.dropWhile ignored := by
    rw [tokens, tokens, List.dropWhile_map]
    rfl
  refine fun r _ _ => .modify ?_ ?_ fun s alike within =>
    alike.moved (List.dropWhile ignored) (left r) (left s) ?_
  · rw [left]
    exact List.dropWhile_suffix _
  · rw [left]
    exact (List.dropWhile_suffix _).length_le
  · intro shared tokens
    rw [Within, left, tokens] at within
    -- It stops at a shared token.
    obtain ⟨ended, ended'⟩ | room := within
    · exact ⟨shared.dropWhile ignored, by rw [ended, List.append_nil, List.append_nil],
        by rw [ended', List.append_nil, List.append_nil]⟩
    · have stops : ¬ (shared.dropWhile ignored).isEmpty := by
        intro empty
        rw [List.dropWhile_append, if_pos empty] at room
        have shorter := (List.dropWhile_suffix (l := o.tokens) ignored).length_le
        omega
      exact ⟨shared.dropWhile ignored, by rw [List.dropWhile_append, if_neg stops],
        by rw [List.dropWhile_append, if_neg stops]⟩

theorem qualify (look : Nat) (name : String) :
    Parallel o p room look 0 (qualify name) (qualify name) := by
  rw [DeclarationReader.qualify]
  split
  · exact .pure look _
  · exact fun _ _ _ => .throw _ _

theorem number : Parallel o p room 0 1 number number := by
  rw [DeclarationReader.number]
  refine .optional (fun negative m _ => ?_) (by decide)
  refine .get 1 (fun r small shares s level => ?_) (by decide)
  rw [← level.peek]
  split
  next n front =>
    refine .next small shares front fun m _ => ?_
    split
    · exact .pure 0 _
    · exact .fail _
  next => exact .fail _

end Parallel

/-- Noting a type, which is known by its name from then on. -/
def noteType (q : QualifiedName) (type : DataType) : Reading Unit :=
  modify fun r =>
    { r with context := r.context.grown [(q, type)], types := r.types ++ [(q, type)] }

theorem Beside.noteType (look : Nat) (q : QualifiedName) (type : DataType) :
    Beside o p look 0 r (noteType q type) (noteType q type) := by
  refine .modify (List.suffix_refl _) (Nat.le_refl _) fun s alike _ => ?_
  obtain ⟨shared, noted, left, right⟩ := alike.reached
  obtain ⟨left_context, left_types, left_tokens⟩ := Scene.mk.inj left
  obtain ⟨right_context, right_types, right_tokens⟩ := Scene.mk.inj right
  have grown_on (c : DeclarationContext) :
      (c.grown noted).grown [(q, type)] = c.grown (noted ++ [(q, type)]) :=
    (c.grown_append noted [(q, type)]).symm
  refine ⟨alike.size, shared, noted ++ [(q, type)], ?_, ?_⟩
  · show Scene.mk (r.context.grown [(q, type)]) (r.types ++ [(q, type)]) r.tokens = _
    rw [left_context, left_types, left_tokens, grown_on, List.append_assoc]
    rfl
  · show Scene.mk (s.context.grown [(q, type)]) (s.types ++ [(q, type)]) s.tokens = _
    rw [right_context, right_types, right_tokens, grown_on, List.append_assoc]
    rfl

theorem run_defineTag {name : String} {q : QualifiedName} (named : QualifiedName.parse name = .ok q)
    (text : q.text = name) (type : DataType) (r : DeclarationReader) :
    (defineTag (some name) type).run r = (noteType q type).run r := by
  subst text
  show (noteWidth q.text type.width >>= fun _ => qualify q.text >>= fun q =>
    modify fun r => { r with types := r.types ++ [(q, type)] }).run r = _
  rw [qualify, named]
  rfl

theorem Parallel.defineTag {room : Nat} (look : Nat) {tag : Option String}
    (named : ∀ name ∈ tag, SharedWord o.context p.context name) (type : DataType) :
    Parallel o p room look 0 (defineTag tag type) (defineTag tag type) := by
  intro r _ _
  cases tag with
  | none => exact .pure look ()
  | some name =>
    obtain ⟨q, parsed, text⟩ := (named name rfl).name
    have noted := run_defineTag parsed text type
    exact (Beside.noteType look q type).congr (noted r) fun s _ => noted s

end DeclarationReader

end BinaryAtlas
