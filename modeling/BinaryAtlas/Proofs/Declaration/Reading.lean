import BinaryAtlas.Declaration.Parser
import Mathlib.Data.List.Infix

/-!
What readers of declarations take from the front of a source and what they give for it. There is one
rule for each way to put readers together, and one for each of those that all others are made of.
-/

set_option autoImplicit false

namespace BinaryAtlas

/-- Tokens name members one after the other: each stretch of them has a name in it and goes up to
the mark behind a declarator. -/
inductive NamesInOrder : List CToken → List String → Prop where
  | nil : NamesInOrder [] []
  | cons {front back others : List CToken} {name : String} {names : List String} {c : Char}
      (ends : c = ',' ∨ c = ';') (rest : NamesInOrder others names) :
      NamesInOrder (front ++ .word name :: back ++ .mark c :: others) (name :: names)

namespace NamesInOrder

theorem append {front back : List CToken} {names others : List String}
    (first : NamesInOrder front names) (rest : NamesInOrder back others) :
    NamesInOrder (front ++ back) (names ++ others) := by
  induction first with
  | nil => exact rest
  | cons ends _ ih =>
    rw [List.append_assoc, List.cons_append]
    exact .cons ends ih

theorem behind {tokens : List CToken} {name : String} {names : List String}
    (order : NamesInOrder tokens (name :: names)) (front : List CToken) :
    NamesInOrder (front ++ tokens) (name :: names) := by
  cases order with
  | cons ends rest =>
    rw [← List.append_assoc, ← List.append_assoc]
    exact .cons ends rest

end NamesInOrder

/-- The types that a source can declare. The fields of a structure come from a body that stands in
the source, in its order. -/
inductive Declared (source : List CToken) : DataType → Prop where
  | void : Declared source .void
  | bool : Declared source .bool
  | integer (width : Word) (signed : Bool) : Declared source (.integer width signed)
  | float (width : Word) : Declared source (.float width)
  | enumeration (tag : Option String) (members : List (String × Int)) (width : Word) :
      Declared source (.enumeration tag members width)
  | named (name : String) (width : Word) : Declared source (.named name width)
  | pointer {target : DataType} (declared : Declared source target) (width : Word) :
      Declared source (.pointer target width)
  | array {element : DataType} (declared : Declared source element) (count : Word) :
      Declared source (.array element count)
  | function {result : DataType} {parameters : List Parameter} (declared : Declared source result)
      (all : ∀ p ∈ parameters, Declared source p.type) (variadic : Bool) :
      Declared source (.function result parameters variadic)
  | record {fields : List (String × DataType)} {body : List CToken} (tag : Option String)
      (stands : .mark '\x7b' :: body ++ [.mark '\x7d'] <:+: source)
      (order : NamesInOrder body (fields.map (·.1)))
      (all : ∀ f ∈ fields, Declared source f.2) : Declared source (DataType.laidOut tag fields)

namespace DeclarationReader

def tokens (r : DeclarationReader) : List CToken := r.rest.map (·.token)

/-- Going on behind what is seen of a source, a reader that does not fail has then seen and gives
what is said of it, and the types noted are such as the source can declare. -/
def Reads {α : Type} (source seen : List CToken) (x : Reading α) (post : List CToken → α → Prop) :
    Prop :=
  ∀ (r : DeclarationReader) (a : α) (later : DeclarationReader), x.run r = .ok (a, later) →
    seen ++ r.tokens <:+ source → (∀ t ∈ r.types, Declared source t.2) →
      ∃ taken, r.tokens = taken ++ later.tokens ∧ (∀ t ∈ later.types, Declared source t.2) ∧
        post (seen ++ taken) a

namespace Reads

variable {α β : Type} {source seen : List CToken}

theorem of_run {x : Reading α} {post : List CToken → α → Prop}
    (step : ∀ (r : DeclarationReader) (a : α) (later : DeclarationReader),
      x.run r = .ok (a, later) → ∃ taken, r.tokens = taken ++ later.tokens ∧
        later.types = r.types ∧ post (seen ++ taken) a) :
    Reads source seen x post := by
  intro r a later run _ noted
  obtain ⟨taken, front, types, reached⟩ := step r a later run
  exact ⟨taken, front, types ▸ noted, reached⟩

theorem pure {a : α} {post : List CToken → α → Prop} (given : post seen a) :
    Reads source seen (pure a) post := by
  refine .of_run fun r b later run => ?_
  obtain ⟨rfl, rfl⟩ := Prod.mk.inj (Except.ok.inj run)
  exact ⟨[], rfl, rfl, by rwa [List.append_nil]⟩

theorem throw {e : AtlasError} {post : List CToken → α → Prop} :
    Reads source seen (throw e) post :=
  .of_run fun _ _ _ run => by cases run

theorem fail {what : String} {post : List CToken → α → Prop} :
    Reads source seen (fail what) post :=
  .of_run fun _ _ _ run => by cases run

theorem bind {x : Reading α} {f : α → Reading β} {mid : List CToken → α → Prop}
    {post : List CToken → β → Prop} (first : Reads source seen x mid)
    (next : ∀ now a, mid now a → Reads source now (f a) post) :
    Reads source seen (x >>= f) post := by
  intro r b last run left noted
  rw [StateT.run_bind] at run
  cases front : x.run r with
  | error e => rw [front] at run; cases run
  | ok reached =>
    obtain ⟨a, later⟩ := reached
    rw [front] at run
    obtain ⟨taken, parts, kept, given⟩ := first r a later front left noted
    rw [parts, ← List.append_assoc] at left
    obtain ⟨more, rest, noted_last, reached⟩ := next _ a given later b last run left kept
    exact ⟨taken ++ more, by rw [parts, rest, List.append_assoc], noted_last,
      by rwa [← List.append_assoc]⟩

theorem weaken {x : Reading α} {strong post : List CToken → α → Prop}
    (reads : Reads source seen x strong) (weaker : ∀ now a, strong now a → post now a) :
    Reads source seen x post := by
  intro r a later run left noted
  obtain ⟨taken, front, kept, given⟩ := reads r a later run left noted
  exact ⟨taken, front, kept, weaker _ a given⟩

/-- What is seen stands in the source. -/
theorem standing {x : Reading α} {post : List CToken → α → Prop}
    (reads : seen <:+: source → Reads source seen x post) :
    Reads source seen x post := by
  intro r a later run left noted
  have stands := (List.prefix_append seen r.tokens).isInfix.trans left.isInfix
  exact reads stands r a later run left noted

/-- What a reader makes of the tokens it takes does not depend on those seen before. -/
theorem behind {x : Reading α} {post : List CToken → α → Prop}
    (reads : Reads source [] x post) (seen : List CToken) :
    Reads source seen x fun now a => ∃ taken, now = seen ++ taken ∧ post taken a := by
  intro r a later run left noted
  have remains := (List.suffix_append seen r.tokens).trans left
  obtain ⟨taken, front, kept, given⟩ := reads r a later run remains noted
  exact ⟨taken, front, kept, taken, rfl, given⟩

theorem anywhere {x : Reading α} {sort : α → Prop}
    (reads : Reads source [] x fun _ a => sort a) (seen : List CToken) :
    Reads source seen x fun _ a => sort a :=
  (reads.behind seen).weaken fun _ _ given => by
    obtain ⟨_, _, given⟩ := given
    exact given

section Steps

/-! The rules for what stands first, each with what goes on from there. -/

variable {post : List CToken → β → Prop}

theorem of_noted {f : DeclarationReader → Reading β}
    (next : ∀ r, (∀ t ∈ r.types, Declared source t.2) → Reads source seen (f r) post) :
    Reads source seen (get >>= f) post :=
  fun r a later run left noted => next r noted r a later run left noted

theorem get {f : DeclarationReader → Reading β} (next : ∀ r, Reads source seen (f r) post) :
    Reads source seen (get >>= f) post :=
  .of_noted fun r _ => next r

theorem given {a : α} {f : α → Reading β} (next : Reads source seen (f a) post) :
    Reads source seen (Pure.pure a >>= f) post :=
  next

theorem call {x : Reading α} {f : α → Reading β} {mid : List CToken → α → Prop}
    (first : Reads source [] x mid)
    (next : ∀ taken a, mid taken a → Reads source (seen ++ taken) (f a) post) :
    Reads source seen (x >>= f) post := by
  refine .bind (first.behind seen) fun now a given => ?_
  obtain ⟨taken, rfl, given⟩ := given
  exact next taken a given

theorem skip {g : DeclarationReader → DeclarationReader} {f : Unit → Reading β}
    (later : ∀ r, (g r).rest <:+ r.rest) (types : ∀ r, (g r).types = r.types)
    (next : ∀ now, Reads source now (f ()) post) :
    Reads source seen (modify g >>= f) post := by
  have skips : Reads source [] (modify g : Reading Unit) fun _ _ => True := by
    refine .of_run fun r _ after run => ?_
    obtain ⟨-, rfl⟩ := Prod.mk.inj (Except.ok.inj run)
    obtain ⟨taken, front⟩ := later r
    exact ⟨taken.map (·.token), by rw [tokens, ← front, List.map_append]; rfl, types r, trivial⟩
  exact .call skips fun taken _ _ => next (seen ++ taken)

theorem drop {n : Nat} {f : Unit → Reading β} (next : ∀ now, Reads source now (f ()) post) :
    Reads source seen (drop n >>= f) post :=
  .skip (fun r => List.drop_suffix n r.rest) (fun _ => rfl) next

theorem skipIgnored {f : Unit → Reading β}
    (next : ∀ now, Reads source now (f ()) post) :
    Reads source seen (skipIgnored >>= f) post :=
  .skip (fun _ => List.dropWhile_suffix _) (fun _ => rfl) next

theorem atEnd {f : Bool → Reading β} (next : ∀ found, Reads source seen (f found) post) :
    Reads source seen (atEnd >>= f) post :=
  .get fun r => next r.rest.isEmpty

/-- What is known to stand at the front is what goes when one token is dropped. -/
theorem tokens_of_peek {t : CToken} {r : DeclarationReader} (front : r.peek? = some t) :
    r.tokens = [t] ++ ({ r with rest := r.rest.drop 1 } : DeclarationReader).tokens := by
  obtain ⟨rest, stop, context, types⟩ := r
  cases rest with
  | nil => cases front
  | cons first others =>
    obtain rfl := Option.some.inj front
    rfl

theorem eats (c : Char) : Reads source [] (DeclarationReader.eat c) fun taken found =>
    taken = if found then [.mark c] else [] := by
  refine .of_run fun r found later run => ?_
  rw [DeclarationReader.eat, StateT.run_bind, StateT.run_get, pure_bind] at run
  split at run
  next front =>
    obtain ⟨rfl, rfl⟩ := Prod.mk.inj (Except.ok.inj run)
    exact ⟨_, tokens_of_peek front, rfl, rfl⟩
  next =>
    obtain ⟨rfl, rfl⟩ := Prod.mk.inj (Except.ok.inj run)
    exact ⟨[], rfl, rfl, rfl⟩

theorem eat {c : Char} {f : Bool → Reading β}
    (found : Reads source (seen ++ [.mark c]) (f true) post)
    (missing : Reads source seen (f false) post) :
    Reads source seen (eat c >>= f) post := by
  refine .call (eats c) fun taken eaten given => ?_
  cases eaten with
  | true => exact given ▸ found
  | false =>
    obtain rfl : taken = [] := given
    rwa [List.append_nil]

theorem expect {c : Char} {f : Unit → Reading β}
    (next : Reads source (seen ++ [.mark c]) (f ()) post) :
    Reads source seen (expect c >>= f) post := by
  have expects : Reads source [] (DeclarationReader.expect c) fun taken _ => taken = [.mark c] :=
    .eat (.pure rfl) .fail
  exact .call expects fun _ _ given => given ▸ next

theorem word {f : Option String → Reading β}
    (found : ∀ w, Reads source (seen ++ [.word w]) (f (some w)) post)
    (missing : Reads source seen (f none) post) :
    Reads source seen (word? >>= f) post := by
  have words : Reads source [] word? fun taken w => taken = (w.map CToken.word).toList := by
    refine .of_run fun r w later run => ?_
    rw [word?, StateT.run_bind, StateT.run_get, pure_bind] at run
    split at run
    next front =>
      obtain ⟨rfl, rfl⟩ := Prod.mk.inj (Except.ok.inj run)
      exact ⟨_, tokens_of_peek front, rfl, rfl⟩
    next =>
      obtain ⟨rfl, rfl⟩ := Prod.mk.inj (Except.ok.inj run)
      exact ⟨[], rfl, rfl, rfl⟩
  refine .call words fun taken w given => ?_
  cases w with
  | some w => exact given ▸ found w
  | none =>
    obtain rfl : taken = [] := given
    rwa [List.append_nil]

theorem number {f : Int → Reading β} (next : ∀ now n, Reads source now (f n) post) :
    Reads source seen (number >>= f) post := by
  have digits : Reads source [] DeclarationReader.number fun _ _ => True := by
    rw [DeclarationReader.number]
    refine .call (eats '-') fun taken negative _ => .get fun r => ?_
    split
    · refine .drop fun _ => ?_
      split
      · exact .pure trivial
      · exact .fail
    · exact .fail
  exact .call digits fun taken n _ => next (seen ++ taken) n

theorem qualify {name : String} {f : QualifiedName → Reading β}
    (next : ∀ q, Reads source seen (f q) post) :
    Reads source seen (qualify name >>= f) post := by
  have names : Reads source seen (DeclarationReader.qualify name) fun now _ => now = seen := by
    rw [DeclarationReader.qualify]
    split
    · exact .pure rfl
    · exact .throw
  exact .bind names fun _ q same => same ▸ next q

theorem noteWidth {name : String} {width : Word} {f : Unit → Reading β}
    (next : ∀ now, Reads source now (f ()) post) :
    Reads source seen (noteWidth name width >>= f) post :=
  .skip (fun r => List.suffix_refl r.rest) (fun _ => rfl) next

theorem discard {x : Reading α} {f : Unit → Reading β} {mid : List CToken → α → Prop}
    (first : Reads source [] x mid) (next : ∀ now, Reads source now (f ()) post) :
    Reads source seen (discard x >>= f) post := by
  have drops : Reads source [] (Functor.discard x) fun _ _ => True :=
    .call first fun _ _ _ => .pure trivial
  exact .call drops fun taken _ _ => next (seen ++ taken)

end Steps

theorem note {type : DataType} (declared : Declared source type) (q : QualifiedName) :
    Reads source seen (modify fun r => { r with types := r.types ++ [(q, type)] })
      fun _ _ => True := by
  intro r _ later run _ noted
  obtain ⟨-, rfl⟩ := Prod.mk.inj (Except.ok.inj run)
  refine ⟨[], rfl, fun t member => ?_, trivial⟩
  obtain known | fresh := List.mem_append.1 member
  · exact noted t known
  · obtain rfl := List.mem_singleton.1 fresh
    exact declared

theorem defineTag {type : DataType} (declared : Declared source type) (tag : Option String) :
    Reads source seen (defineTag tag type) fun _ _ => True := by
  cases tag with
  | none => exact .pure trivial
  | some name => exact .noteWidth fun _ => .qualify fun q => .note declared q

end Reads

end DeclarationReader

end BinaryAtlas
