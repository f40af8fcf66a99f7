import BinaryAtlas.Mangling
import Mathlib.Data.List.TakeWhile

/-!
What the short form of a name leaves out. Reading from the right, it cuts in front of the last group
in parentheses, whatever stands behind that group.
-/

set_option autoImplicit false

namespace BinaryAtlas

namespace Mangling

/-- Text in which every parenthesis has its partner. -/
inductive Paired : List Char → Prop where
  | nil : Paired []
  | plain {c : Char} {rest : List Char} (other : c ≠ '(' ∧ c ≠ ')') (paired : Paired rest) :
      Paired (c :: rest)
  | group {inner rest : List Char} (inside : Paired inner) (paired : Paired rest) :
      Paired ('(' :: (inner ++ ')' :: rest))

/-- So many groups end in a text that do not begin there. What precedes the end of one is paired. -/
def Unopened : Nat → List Char → Prop
  | 0, _ => True
  | depth + 1, text =>
    ∃ inner rest, text = inner ++ ')' :: rest ∧ Paired inner ∧ Unopened depth rest

variable {name front inner rest text : List Char}

/-- A paired text in front of the end of its group is all of the group. -/
theorem Paired.unique {inner' rest' : List Char} (paired : Paired inner) (other : Paired inner')
    (same : inner ++ ')' :: rest = inner' ++ ')' :: rest') : inner = inner' ∧ rest = rest' := by
  induction paired generalizing inner' rest rest' with
  | nil =>
    cases other with
    | nil => exact ⟨rfl, (List.cons.inj same).2⟩
    | plain different _ => exact absurd (List.cons.inj same).1.symm different.2
    | group => exact absurd (List.cons.inj same).1 (by decide)
  | plain different _ ih =>
    cases other with
    | nil => exact absurd (List.cons.inj same).1 different.2
    | plain _ other =>
      obtain ⟨rfl, tail⟩ := List.cons.inj same
      obtain ⟨rfl, rfl⟩ := ih other tail
      exact ⟨rfl, rfl⟩
    | group => exact absurd (List.cons.inj same).1 different.1
  | group _ _ ih ih' =>
    cases other with
    | nil => exact absurd (List.cons.inj same).1 (by decide)
    | plain different _ => exact absurd (List.cons.inj same).1.symm different.1
    | group inside other =>
      rw [List.cons_append, List.cons_append, List.cons.injEq, List.append_assoc,
        List.append_assoc] at same
      obtain ⟨rfl, tail⟩ := ih inside same.2
      obtain ⟨rfl, rfl⟩ := ih' other tail
      exact ⟨rfl, rfl⟩

/-- What is found from the right lies in front of a group. -/
theorem group_of_beforeLastGroup? {depth : Int} {left : List Char}
    (unopened : Unopened depth.toNat text) (found : beforeLastGroup? depth left = some front) :
    ∃ inner rest, left.reverse ++ text = front ++ '(' :: (inner ++ ')' :: rest) ∧ front ≠ [] ∧
      Paired inner := by
  fun_induction beforeLastGroup? depth left generalizing text with
  | case1 => cases found
  | case2 depth left ih =>
    have closed : Unopened (depth + 1).toNat (')' :: text) := by
      rcases Int.lt_or_le depth 0 with below | above
      · rw [Int.toNat_of_nonpos (by omega)]
        trivial
      · rw [show (depth + 1).toNat = depth.toNat + 1 by omega]
        exact ⟨[], text, rfl, .nil, unopened⟩
    simpa using ih closed found
  | case3 depth left last =>
    obtain ⟨one, some_⟩ := last
    obtain rfl := Option.some.inj found
    rw [show depth.toNat = 1 by omega] at unopened
    obtain ⟨inner, rest, rfl, paired, -⟩ := unopened
    exact ⟨inner, rest, by simp, by simpa using some_, paired⟩
  | case4 depth left more ih =>
    have opened : Unopened (depth - 1).toNat ('(' :: text) := by
      rcases Int.lt_or_le 1 depth with inside | outside
      · rw [show depth.toNat = (depth - 1).toNat + 1 by omega] at unopened
        obtain ⟨inner, rest, rfl, paired, unopened⟩ := unopened
        rw [show (depth - 1).toNat = (depth - 2).toNat + 1 by omega] at unopened ⊢
        obtain ⟨inner', rest, rfl, paired', unopened⟩ := unopened
        exact ⟨'(' :: (inner ++ ')' :: inner'), rest, by simp, .group paired paired', unopened⟩
      · rw [Int.toNat_of_nonpos (by omega)]
        trivial
    simpa using ih opened found
  | case5 depth c left close open_ ih =>
    have plain : Unopened depth.toNat (c :: text) := by
      revert unopened
      cases depth.toNat with
      | zero => exact id
      | succ n =>
        rintro ⟨inner, rest, rfl, paired, unopened⟩
        exact ⟨c :: inner, rest, rfl, .plain ⟨open_, close⟩ paired, unopened⟩
    simpa using ih plain found

theorem beforeLastGroup?_plain {c : Char} (different : c ≠ '(' ∧ c ≠ ')') (depth : Int)
    (left : List Char) : beforeLastGroup? depth (c :: left) = beforeLastGroup? depth left := by
  rw [beforeLastGroup?]
  · exact different.2
  · exact different.1

/-- A paired text inside a group is passed over. -/
theorem Paired.passed (paired : Paired text) {depth : Int} (inside : 0 < depth)
    (left : List Char) :
    beforeLastGroup? depth (text.reverse ++ left) = beforeLastGroup? depth left := by
  induction paired generalizing depth left with
  | nil => rfl
  | plain different _ ih =>
    rw [List.reverse_cons, List.append_assoc, ih inside, List.singleton_append,
      beforeLastGroup?_plain different]
  | @group inner rest _ _ ih ih' =>
    have order : ('(' :: (inner ++ ')' :: rest)).reverse ++ left =
        rest.reverse ++ ')' :: (inner.reverse ++ '(' :: left) := by simp
    have deeper : ¬ (depth + 1 - 1 = 0 ∧ left ≠ []) := by omega
    rw [order, ih' inside, beforeLastGroup?, ih (by omega), beforeLastGroup?, if_neg deeper,
      Int.add_sub_cancel]

/-- Text without parentheses is passed over. -/
theorem passed_of_plain (plain : ∀ c ∈ text, c ≠ '(' ∧ c ≠ ')') (depth : Int) (left : List Char) :
    beforeLastGroup? depth (text.reverse ++ left) = beforeLastGroup? depth left := by
  induction text generalizing left with
  | nil => rfl
  | cons c text ih =>
    obtain ⟨different, plain⟩ := List.forall_mem_cons.1 plain
    rw [List.reverse_cons, List.append_assoc, ih plain, List.singleton_append,
      beforeLastGroup?_plain different]

/-- A name is some text, the last group in parentheses, and what stands behind that. -/
structure LastGroup (name front inner rest : List Char) : Prop where
  text : name = front ++ '(' :: (inner ++ ')' :: rest)
  paired : Paired inner
  last : ∀ c ∈ rest, c ≠ '(' ∧ c ≠ ')'

theorem Paired.exists_lastGroup (paired : Paired name) :
    (∃ front inner rest, LastGroup name front inner rest) ∨ ∀ c ∈ name, c ≠ '(' ∧ c ≠ ')' := by
  induction paired with
  | nil => exact .inr (List.forall_mem_nil _)
  | @plain c rest different _ ih =>
    refine ih.imp ?_ fun plain => List.forall_mem_cons.2 ⟨different, plain⟩
    rintro ⟨front, inner, rest, rfl, paired, last⟩
    exact ⟨c :: front, inner, rest, rfl, paired, last⟩
  | @group inner rest inside _ _ ih =>
    refine .inl (ih.elim ?_ fun plain => ⟨[], inner, rest, rfl, inside, plain⟩)
    rintro ⟨front, inner', rest, rfl, paired, last⟩
    exact ⟨'(' :: (inner ++ ')' :: front), inner', rest, by simp, paired, last⟩

/-- The last group is what a name is cut at, unless the name begins with it. -/
theorem LastGroup.withoutParameters (group : LastGroup name front inner rest) :
    withoutParameters name = if front = [] then name else trimRight front := by
  obtain ⟨rfl, paired, last⟩ := group
  have order : (front ++ '(' :: (inner ++ ')' :: rest)).reverse =
      rest.reverse ++ ')' :: (inner.reverse ++ '(' :: front.reverse) := by simp
  rw [Mangling.withoutParameters, order, passed_of_plain last, beforeLastGroup?,
    paired.passed (by decide), beforeLastGroup?]
  by_cases empty : front = []
  · subst empty
    rfl
  · simp [empty]

theorem withoutParameters_of_plain (plain : ∀ c ∈ name, c ≠ '(' ∧ c ≠ ')') :
    withoutParameters name = name := by
  have passed := passed_of_plain plain 0 []
  rw [List.append_nil] at passed
  rw [withoutParameters, passed]
  rfl

/-- The name itself, or what is left without a group in parentheses and what stands behind it, which
has no further components. -/
def LosesParameters (name short : List Char) : Prop :=
  short = name ∨ ∃ front inner rest, name = front ++ '(' :: (inner ++ ')' :: rest) ∧
    Paired inner ∧ ¬ [':', ':'] <:+: rest ∧ short = trimRight front ∧ short ≠ []

theorem trimRight_eq_nil_iff : trimRight text = [] ↔ ∀ c ∈ text, isBlank c = true := by
  rw [trimRight, List.reverse_eq_nil_iff, List.dropWhile_eq_nil_iff]
  simp only [List.mem_reverse]

theorem exists_blanks (text : List Char) :
    ∃ blanks, text = trimRight text ++ blanks ∧ ∀ c ∈ blanks, isBlank c = true := by
  refine ⟨(text.reverse.takeWhile isBlank).reverse, ?_, fun c member => ?_⟩
  · rw [trimRight, ← List.reverse_append, List.takeWhile_append_dropWhile, List.reverse_reverse]
  · exact List.mem_takeWhile_imp (List.mem_reverse.1 member)

/-- What is cut off begins behind the blanks. -/
theorem eq_of_trimRight_eq {front' rest' : List Char}
    (same : front ++ '(' :: rest = front' ++ '(' :: rest')
    (trimmed : trimRight front = trimRight front') : front = front' ∧ rest = rest' := by
  have blank {blanks rest : List Char} (all : ∀ c ∈ blanks, isBlank c = true) :
      (blanks ++ '(' :: rest).takeWhile isBlank = blanks := by
    rw [List.takeWhile_append_of_pos all, List.takeWhile_cons_of_neg (by decide), List.append_nil]
  obtain ⟨blanks, front_eq, all⟩ := exists_blanks front
  obtain ⟨blanks', front_eq', all'⟩ := exists_blanks front'
  have cut := same
  rw [front_eq, front_eq', trimmed, List.append_assoc, List.append_assoc,
    List.append_cancel_left_eq] at cut
  have between : blanks = blanks' := by rw [← blank all, cut, blank all']
  have fronts : front = front' := by rw [front_eq, front_eq', trimmed, between]
  subst fronts
  exact ⟨rfl, (List.cons.inj (List.append_cancel_left same)).2⟩

theorem LastGroup.losesParameters_iff (group : LastGroup name front inner rest) :
    LosesParameters name (Mangling.withoutParameters name) ↔
      front = [] ∨ (∃ c ∈ front, isBlank c = false) ∧ ¬ [':', ':'] <:+: rest := by
  rw [group.withoutParameters]
  obtain ⟨rfl, paired, last⟩ := group
  by_cases empty : front = []
  · rw [if_pos empty]
    exact iff_of_true (.inl rfl) (.inl empty)
  rw [if_neg empty]
  have solid : trimRight front ≠ [] ↔ ∃ c ∈ front, isBlank c = false := by
    rw [ne_eq, trimRight_eq_nil_iff]
    simp
  constructor
  · rintro (same | ⟨front', inner', rest', same, paired', apart, trimmed, some_⟩)
    · -- What is left is shorter than the name.
      obtain ⟨blanks, front_eq, -⟩ := exists_blanks front
      have longer := congrArg List.length same
      have length := congrArg List.length front_eq
      simp only [List.length_append, List.length_cons] at longer length
      omega
    · obtain ⟨rfl, behind⟩ := eq_of_trimRight_eq same trimmed
      obtain ⟨rfl, rfl⟩ := paired.unique paired' behind
      exact .inr ⟨solid.1 some_, apart⟩
  · rintro (none_ | ⟨some_, apart⟩)
    · exact absurd none_ empty
    · exact .inr ⟨front, inner, rest, rfl, paired, apart, rfl, solid.2 some_⟩

/-- A name keeps all of its text, or is cut in front of a group in parentheses. A name with a last
group is cut there unless it begins with it, so that it loses no more than parameters exactly if no
further components stand behind that group. A paired name has a last group, or none and is kept. -/
theorem withoutParameters_exact (name : List Char) :
    (withoutParameters name = name ∨
      ∃ front inner rest, name = front ++ '(' :: (inner ++ ')' :: rest) ∧ front ≠ [] ∧
        Paired inner ∧ withoutParameters name = trimRight front) ∧
    (∀ front inner rest, LastGroup name front inner rest →
      withoutParameters name = (if front = [] then name else trimRight front) ∧
        (LosesParameters name (withoutParameters name) ↔
          front = [] ∨ (∃ c ∈ front, isBlank c = false) ∧ ¬ [':', ':'] <:+: rest)) ∧
    (Paired name → (∃ front inner rest, LastGroup name front inner rest) ∨
      withoutParameters name = name) := by
  refine ⟨?_, fun front inner rest group => ⟨group.withoutParameters, group.losesParameters_iff⟩,
    fun paired => paired.exists_lastGroup.imp_right withoutParameters_of_plain⟩
  cases found : beforeLastGroup? 0 name.reverse with
  | none => exact .inl (by rw [withoutParameters, found])
  | some front =>
    have unopened : Unopened (0 : Int).toNat [] := trivial
    obtain ⟨inner, rest, text, some_, paired⟩ := group_of_beforeLastGroup? unopened found
    rw [List.reverse_reverse, List.append_nil] at text
    exact .inr ⟨front, inner, rest, text, some_, paired, by rw [withoutParameters, found]⟩

theorem plain_of_notMem (none_ : '(' ∉ text ∧ ')' ∉ text) : ∀ c ∈ text, c ≠ '(' ∧ c ≠ ')' :=
  fun _ member => ⟨fun same => none_.1 (same ▸ member), fun same => none_.2 (same ▸ member)⟩

/-- A parameter that is a pointer to a function has groups of its own. -/
theorem pointer_parameter_paired : Paired "int (*)()".toList :=
  .plain (by decide) <| .plain (by decide) <| .plain (by decide) <| .plain (by decide) <|
    .group (.plain (by decide) .nil) (.group .nil .nil)

theorem member_function_shortened :
    LastGroup "a::(anonymous namespace)::f(int (*)()) const".toList
        "a::(anonymous namespace)::f".toList "int (*)()".toList " const".toList ∧
      withoutParameters "a::(anonymous namespace)::f(int (*)()) const".toList =
        "a::(anonymous namespace)::f".toList ∧
      LosesParameters "a::(anonymous namespace)::f(int (*)()) const".toList
        "a::(anonymous namespace)::f".toList := by
  have facts : ("a::(anonymous namespace)::f(int (*)()) const".toList =
        "a::(anonymous namespace)::f".toList ++ '(' :: ("int (*)()".toList ++ ')' ::
          " const".toList) ∧ '(' ∉ " const".toList ∧ ')' ∉ " const".toList) ∧
      "a::(anonymous namespace)::f".toList ≠ [] ∧
      trimRight "a::(anonymous namespace)::f".toList = "a::(anonymous namespace)::f".toList ∧
      'a' ∈ "a::(anonymous namespace)::f".toList ∧ ¬ [':', ':'] <:+: " const".toList := by
    decide +kernel
  obtain ⟨⟨text, last⟩, some_, trimmed, solid, apart⟩ := facts
  have group := LastGroup.mk text pointer_parameter_paired (plain_of_notMem last)
  obtain ⟨short, loses⟩ := (withoutParameters_exact _).2.1 _ _ _ group
  rw [if_neg some_, trimmed] at short
  rw [short] at loses
  exact ⟨group, short, loses.2 (.inr ⟨⟨'a', solid, rfl⟩, apart⟩)⟩

/-- The variable of a function goes by the name of the function, and one in a namespace without a
name by that of the namespace around it. -/
theorem components_behind_group_lost :
    demangle? "_ZZ1fiE1x" = some ⟨"_ZZ1fiE1x", "f(int)::x", "f", .itanium⟩ ∧
      ¬ LosesParameters "f(int)::x".toList "f".toList ∧
      withoutParameters "std::(anonymous namespace)::x".toList = "std::".toList := by
  have facts : ("f(int)::x".toList = "f".toList ++ '(' :: ("int".toList ++ ')' :: "::x".toList) ∧
        '(' ∉ "::x".toList ∧ ')' ∉ "::x".toList) ∧
      "f".toList ≠ [] ∧ [':', ':'] <:+: "::x".toList ∧
      withoutParameters "f(int)::x".toList = "f".toList ∧
      demangle? "_ZZ1fiE1x" = some ⟨"_ZZ1fiE1x", "f(int)::x", "f", .itanium⟩ ∧
      withoutParameters "std::(anonymous namespace)::x".toList = "std::".toList := by decide +kernel
  obtain ⟨⟨text, last⟩, some_, further, short, read, unnamed⟩ := facts
  have paired : Paired "int".toList :=
    .plain (by decide) <| .plain (by decide) <| .plain (by decide) .nil
  have loses := (LastGroup.mk text paired (plain_of_notMem last)).losesParameters_iff
  rw [short] at loses
  refine ⟨read, fun lost => ?_, unnamed⟩
  rcases loses.1 lost with none_ | ⟨-, apart⟩
  · exact some_ none_
  · exact apart further

end Mangling

end BinaryAtlas
