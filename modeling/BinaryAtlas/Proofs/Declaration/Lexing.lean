import BinaryAtlas.Declaration.Token
import BinaryAtlas.QualifiedName
import Mathlib.Data.List.Infix
import Mathlib.Data.List.TakeWhile

/-!
The tokens of a text without their places: those in front of a line break do not depend on what
stands behind it, and every word among them is a name as it stands.
-/

set_option autoImplicit false

namespace BinaryAtlas

namespace CToken

def Lexeme.tokens : Lexeme → List CToken
  | .token t => [t]
  | .skipped => []

/-- The tokens of a text, wherever it stands. -/
def read? (cs : List Char) : Option (List CToken) :=
  (lexFrom 0 cs).toOption.map fun ts => ts.map (·.token)

section Places

theorem eq_ok_of_toOption {α : Type} {x : Except AtlasError α} {a : α}
    (given : x.toOption = some a) : x = .ok a := by
  cases x with
  | error e => cases given
  | ok b => exact congrArg _ (Option.some.inj given)

theorem lexeme_toOption (offset : Nat) (cs : List Char) :
    (lexeme offset cs).toOption = (lexeme 0 cs).toOption := by
  unfold lexeme
  dsimp only
  repeat' split
  all_goals first | exact (rfl : (none : Option (Lexeme × Nat)) = none) | rfl

theorem lexFrom_nil (offset : Nat) : lexFrom offset [] = .ok [] := by rw [lexFrom.eq_def]

theorem lexFrom_step (offset : Nat) (c : Char) (rest : List Char) :
    lexFrom offset (c :: rest) = lexeme offset (c :: rest) >>= fun found =>
      (found.1.tokens.map (⟨·, offset⟩) ++ ·) <$>
        lexFrom (offset + byteLength (c :: rest.take (found.2 - 1))) (rest.drop (found.2 - 1)) := by
  rw [lexFrom.eq_def]
  show lexeme offset (c :: rest) >>= _ = _
  refine bind_congr fun found => ?_
  obtain ⟨kind, length⟩ := found
  show lexFrom _ _ >>= _ = _
  cases lexFrom (offset + byteLength (c :: rest.take (length - 1))) (rest.drop (length - 1)) with
  | error e => rfl
  | ok others => cases kind <;> rfl

theorem lexFrom_cons (offset : Nat) (c : Char) (rest : List Char) :
    ((lexFrom offset (c :: rest)).toOption.map fun ts => ts.map (·.token)) =
      (lexeme 0 (c :: rest)).toOption.bind fun found =>
        ((lexFrom (offset + byteLength (c :: rest.take (found.2 - 1)))
          (rest.drop (found.2 - 1))).toOption.map fun ts => ts.map (·.token)).map
            (found.1.tokens ++ ·) := by
  rw [← lexeme_toOption offset, lexFrom_step]
  cases lexeme offset (c :: rest) with
  | error e => rfl
  | ok found =>
    obtain ⟨kind, length⟩ := found
    show Option.map _ (Except.toOption (_ <$> lexFrom (offset +
      byteLength (c :: rest.take (length - 1))) (rest.drop (length - 1)))) =
        Option.map _ (Option.map _ (Except.toOption (lexFrom (offset +
          byteLength (c :: rest.take (length - 1))) (rest.drop (length - 1)))))
    cases lexFrom (offset + byteLength (c :: rest.take (length - 1))) (rest.drop (length - 1)) with
    | error e => rfl
    | ok others => cases kind <;> rfl

theorem lexFrom_read (offset : Nat) (cs : List Char) :
    ((lexFrom offset cs).toOption.map fun ts => ts.map (·.token)) = read? cs := by
  induction length : cs.length using Nat.strongRecOn generalizing offset cs with
  | ind n ih =>
    subst length
    cases cs with
    | nil => rw [read?, lexFrom_nil, lexFrom_nil]
    | cons c rest =>
      rw [read?, lexFrom_cons, lexFrom_cons]
      congr 1
      funext found
      have shorter : (rest.drop (found.2 - 1)).length < (c :: rest).length := by
        rw [List.length_drop, List.length_cons]
        omega
      rw [ih _ shorter _ _ rfl, ih _ shorter _ _ rfl]

theorem read?_nil : read? [] = some [] := by
  rw [read?, lexFrom_nil]
  rfl

theorem read?_cons (c : Char) (rest : List Char) :
    read? (c :: rest) = (lexeme 0 (c :: rest)).toOption.bind fun found =>
      (read? (rest.drop (found.2 - 1))).map (found.1.tokens ++ ·) := by
  rw [← lexFrom_read 0, lexFrom_cons]
  congr 1
  funext found
  rw [lexFrom_read]

/-- A text is read as these tokens, however it is spaced. -/
def Spells (text : String) (tokens : List CToken) : Prop := read? text.toList = some tokens

instance (text : String) (tokens : List CToken) : Decidable (Spells text tokens) :=
  inferInstanceAs (Decidable (_ = _))

theorem lex_eq_ok_iff (text : String) (tokens : List CToken) :
    (∃ placed, lex text = .ok placed ∧ placed.map (·.token) = tokens) ↔
      read? text.toList = some tokens := by
  rw [lex, read?]
  cases lexFrom 0 text.toList with
  | error e => simp [Except.toOption]
  | ok placed => simp [Except.toOption]

theorem lexeme_refuses {offset : Nat} {cs : List Char} {e : AtlasError}
    (refused : lexeme offset cs = .error e) : ∃ what, e = .parse what := by
  unfold lexeme at refused
  dsimp only at refused
  repeat' split at refused
  all_goals
    first
    | exact ⟨_, (Except.error.inj refused).symm⟩
    | cases refused

theorem lexFrom_refuses {offset : Nat} {cs : List Char} {e : AtlasError}
    (refused : lexFrom offset cs = .error e) : ∃ what, e = .parse what := by
  induction length : cs.length using Nat.strongRecOn generalizing offset cs with
  | ind n ih =>
    subst length
    cases cs with
    | nil => rw [lexFrom_nil] at refused; cases refused
    | cons c rest =>
      rw [lexFrom_step] at refused
      cases first : lexeme offset (c :: rest) with
      | error e' =>
        rw [first] at refused
        obtain rfl := Except.error.inj refused
        exact lexeme_refuses first
      | ok found =>
        rw [first] at refused
        replace refused : _ <$> lexFrom (offset + byteLength (c :: rest.take (found.2 - 1)))
          (rest.drop (found.2 - 1)) = .error e := refused
        cases behind : lexFrom (offset + byteLength (c :: rest.take (found.2 - 1)))
            (rest.drop (found.2 - 1)) with
        | ok others => rw [behind] at refused; cases refused
        | error e' =>
          rw [behind] at refused
          obtain rfl := Except.error.inj refused
          refine ih _ ?_ behind rfl
          rw [List.length_drop, List.length_cons]
          omega

end Places

section Blanks

theorem lexeme_blank {c : Char} (blank : isBlank c = true) (offset : Nat) (rest : List Char) :
    lexeme offset (c :: rest) = .ok (.skipped, (rest.takeWhile isBlank).length + 1) := by
  rw [lexeme, if_pos blank, List.takeWhile_cons_of_pos blank, List.length_cons]

theorem read?_blank_run {c : Char} (blank : isBlank c = true) (rest : List Char) :
    read? (c :: rest) = read? (rest.dropWhile isBlank) := by
  rw [read?_cons, lexeme_blank blank]
  show (read? (rest.drop (rest.takeWhile isBlank).length)).map id = _
  rw [Option.map_id_apply]
  have parts := List.takeWhile_append_dropWhile (p := isBlank) (l := rest)
  rw [← congrArg (List.drop _) parts, List.drop_left]

/-- Blanks in front count for nothing. -/
theorem read?_blank {c : Char} (blank : isBlank c = true) (rest : List Char) :
    read? (c :: rest) = read? rest := by
  rw [read?_blank_run blank]
  cases rest with
  | nil => rfl
  | cons d others =>
    cases again : isBlank d with
    | true => rw [List.dropWhile_cons_of_pos again, read?_blank_run again]
    | false => rw [List.dropWhile_cons_of_neg (by simp [again])]

end Blanks

section Breaks

/-! A line break ends all that began before it, a block comment excepted. -/

theorem takeWhile_break {p : Char → Bool} (stops : p '\n' = false) (cs more : List Char) :
    (cs ++ '\n' :: more).takeWhile p = cs.takeWhile p := by
  rw [List.takeWhile_append, List.takeWhile_cons_of_neg (by simp [stops]), List.append_nil]
  split
  next whole => exact ((List.takeWhile_prefix p).eq_of_length whole).symm
  next => rfl

theorem blockCommentLength?_append {cs : List Char} {n : Nat}
    (closed : blockCommentLength? cs = some n) (more : List Char) :
    blockCommentLength? (cs ++ more) = some n ∧ n ≤ cs.length := by
  fun_induction blockCommentLength? cs generalizing n with
  | case1 rest =>
    obtain rfl := Option.some.inj closed
    exact ⟨rfl, by simp⟩
  | case2 c rest other ih =>
    obtain ⟨m, inside, rfl⟩ := Option.map_eq_some_iff.1 closed
    obtain ⟨same, within⟩ := ih inside
    refine ⟨?_, by simpa using within⟩
    have still : ∀ tail, c = '*' → rest ++ more ≠ '/' :: tail := by
      rintro tail rfl opened
      cases rest with
      | nil => cases inside
      | cons d others =>
        obtain ⟨rfl, -⟩ := List.cons.inj opened
        exact other others rfl rfl
    rw [List.cons_append, blockCommentLength?.eq_2 _ _ still, same]
    rfl
  | case3 => cases closed

def behindWord (cs : List Char) : List Char := cs.drop (cs.takeWhile isWordPart).length

/-- A name goes on behind its first word. -/
def Joined (cs : List Char) (c : Char) (rest : List Char) : Prop :=
  behindWord cs = ':' :: ':' :: c :: rest ∧ isWordStart c = true

theorem nameLength_joined {cs rest : List Char} {c : Char} (joined : Joined cs c rest)
    (fuel : Nat) : nameLength (fuel + 1) cs =
      (cs.takeWhile isWordPart).length + 2 + nameLength fuel (c :: rest) := by
  obtain ⟨behind, start⟩ := joined
  rw [behindWord] at behind
  simp only [nameLength, behind, start, if_true]

theorem nameLength_alone {cs : List Char} (alone : ¬ ∃ c rest, Joined cs c rest) (fuel : Nat) :
    nameLength (fuel + 1) cs = (cs.takeWhile isWordPart).length := by
  rw [nameLength]
  split
  next c rest behind => exact if_neg fun start => alone ⟨c, rest, behind, start⟩
  next => rfl

theorem Joined.length_lt {cs rest : List Char} {c : Char} (joined : Joined cs c rest) :
    (cs.takeWhile isWordPart).length + 2 + (c :: rest).length = cs.length := by
  have total := congrArg List.length (List.take_append_drop (cs.takeWhile isWordPart).length cs)
  have behind : cs.drop (cs.takeWhile isWordPart).length = ':' :: ':' :: c :: rest := joined.1
  have within := (List.takeWhile_prefix isWordPart (l := cs)).length_le
  rw [behind, List.length_append, List.length_take, Nat.min_eq_left within] at total
  simp only [List.length_cons] at total ⊢
  omega

theorem behindWord_break (cs more : List Char) :
    behindWord (cs ++ '\n' :: more) = behindWord cs ++ '\n' :: more := by
  rw [behindWord, takeWhile_break (by decide),
    List.drop_append_of_le_length (List.takeWhile_prefix _).length_le]
  rfl

theorem joined_break {cs more rest : List Char} {c : Char} :
    Joined (cs ++ '\n' :: more) c rest ↔
      ∃ inner, Joined cs c inner ∧ rest = inner ++ '\n' :: more := by
  rw [Joined, behindWord_break]
  constructor
  · rintro ⟨behind, start⟩
    match ended : behindWord cs, behind with
    | [_, _], behind =>
      -- With two colons at the end of the text, what follows them is the break.
      obtain ⟨rfl, -⟩ := List.cons.inj (List.cons.inj (List.cons.inj behind).2).2
      cases start
    | _ :: _ :: d :: others, behind =>
      obtain ⟨rfl, second⟩ := List.cons.inj behind
      obtain ⟨rfl, third⟩ := List.cons.inj second
      obtain ⟨rfl, rfl⟩ := List.cons.inj third
      exact ⟨others, ⟨ended, start⟩, rfl⟩
  · rintro ⟨inner, ⟨behind, start⟩, rfl⟩
    exact ⟨by rw [behind]; rfl, start⟩

theorem nameLength_break {fuel g : Nat} {cs : List Char} (more : List Char)
    (enough : cs.length ≤ fuel) (enough' : cs.length ≤ g) :
    nameLength fuel (cs ++ '\n' :: more) = nameLength g cs := by
  induction fuel generalizing g cs with
  | zero =>
    obtain rfl := List.length_eq_zero_iff.1 (Nat.le_zero.1 enough)
    cases g <;> rfl
  | succ fuel ih =>
    by_cases joined : ∃ c inner, Joined cs c inner
    · obtain ⟨c, inner, joined⟩ := joined
      have shorter := joined.length_lt
      obtain ⟨g, rfl⟩ : ∃ k, g = k + 1 := ⟨g - 1, by omega⟩
      rw [nameLength_joined (joined_break.2 ⟨inner, joined, rfl⟩), nameLength_joined joined,
        takeWhile_break (by decide), ← List.cons_append,
        ih (g := g) (by omega) (by omega)]
    · have alone : ¬ ∃ c rest, Joined (cs ++ '\n' :: more) c rest := by
        rintro ⟨c, rest, again⟩
        obtain ⟨inner, joined', -⟩ := joined_break.1 again
        exact joined ⟨c, inner, joined'⟩
      rw [nameLength_alone alone, takeWhile_break (by decide)]
      cases g with
      | zero =>
        obtain rfl := List.length_eq_zero_iff.1 (Nat.le_zero.1 enough')
        rfl
      | succ g => rw [nameLength_alone joined]

theorem nameLength_le (fuel : Nat) (cs : List Char) : nameLength fuel cs ≤ cs.length := by
  induction fuel generalizing cs with
  | zero => exact Nat.zero_le _
  | succ fuel ih =>
    by_cases joined : ∃ c inner, Joined cs c inner
    · obtain ⟨c, inner, joined⟩ := joined
      have shorter := joined.length_lt
      have within := ih (c :: inner)
      rw [nameLength_joined joined]
      omega
    · rw [nameLength_alone joined]
      exact (List.takeWhile_prefix _).length_le

theorem commentLength?_break {cs : List Char} {n : Nat} (comment : commentLength? cs = some n)
    (more : List Char) : commentLength? (cs ++ '\n' :: more) = some n ∧ n ≤ cs.length := by
  unfold commentLength? at comment
  split at comment
  next rest =>
    obtain rfl := Option.some.inj comment
    refine ⟨?_, ?_⟩
    · show some (2 + ((rest ++ '\n' :: more).takeWhile _).length) = _
      rw [takeWhile_break (by decide)]
    · have within := (List.takeWhile_prefix (· ≠ '\n') (l := rest)).length_le
      simp only [List.length_cons]
      omega
  next rest =>
    obtain ⟨m, closed, rfl⟩ := Option.map_eq_some_iff.1 comment
    obtain ⟨same, within⟩ := blockCommentLength?_append closed ('\n' :: more)
    refine ⟨?_, ?_⟩
    · show (blockCommentLength? (rest ++ '\n' :: more)).map _ = _
      rw [same]
      rfl
    · simp only [List.length_cons]
      omega
  next => cases comment

theorem commentLength?_solid {c : Char} (other : c ≠ '/') (cs : List Char) :
    commentLength? (c :: cs) = none := by
  unfold commentLength?
  split
  next opened => exact absurd (List.cons.inj opened).1 other
  next opened => exact absurd (List.cons.inj opened).1 other
  next => rfl

theorem numberDigits_other {c : Char} (other : c ≠ '0') (rest : List Char) :
    numberDigits (c :: rest) = (10, 0, (c :: rest).takeWhile Char.isDigit) := by
  unfold numberDigits
  split
  next opened => exact absurd (List.cons.inj opened).1 other
  next => rfl

theorem numberDigits_break (cs more : List Char) :
    numberDigits (cs ++ '\n' :: more) = numberDigits cs := by
  have decimal := takeWhile_break (p := Char.isDigit) (by decide) cs more
  cases cs with
  | nil => rfl
  | cons c rest =>
    by_cases other : c ≠ '0'
    · rw [numberDigits_other other, ← decimal]
      exact numberDigits_other other _
    · obtain rfl := not_not.1 other
      cases rest with
      | nil => rfl
      | cons d others =>
        show (if (d == 'x' || d == 'X') && !((others ++ '\n' :: more).takeWhile isHexDigit).isEmpty
          then (16, 2, (others ++ '\n' :: more).takeWhile isHexDigit)
          else (10, 0, ('0' :: d :: others ++ '\n' :: more).takeWhile Char.isDigit)) = _
        rw [decimal, takeWhile_break (by decide)]
        rfl

theorem numberDigits_length_le (cs : List Char) :
    (numberDigits cs).2.1 + (numberDigits cs).2.2.length ≤ cs.length := by
  have decimal : 0 + (cs.takeWhile Char.isDigit).length ≤ cs.length := by
    rw [Nat.zero_add]
    exact (List.takeWhile_prefix _).length_le
  unfold numberDigits
  split
  next d rest =>
    dsimp only
    split
    · have hexadecimal := (List.takeWhile_prefix isHexDigit (l := rest)).length_le
      simp only [List.length_cons]
      omega
    · exact decimal
  next => exact decimal

def numberLexeme (cs : List Char) : Except AtlasError (Lexeme × Nat) :=
  let (base, before, digits) := numberDigits cs
  let length := before + digits.length
  let value := valueInBase base digits
  if value < 0x10000000000000000 then
    .ok (.token (.number (.ofNat value)),
      length + ((cs.drop length).takeWhile isSuffix).length)
  else
    let text := "'" ++ String.ofList (cs.take length) ++ "'"
    .error (.parse s!"number {text} out of range at offset {0}")

theorem numberLexeme_break {cs : List Char} {found : Lexeme × Nat}
    (lexed : numberLexeme cs = .ok found) (more : List Char) :
    numberLexeme (cs ++ '\n' :: more) = .ok found ∧ found.2 ≤ cs.length := by
  have within := numberDigits_length_le cs
  rw [numberLexeme] at lexed ⊢
  rw [numberDigits_break]
  generalize numberDigits cs = digits at lexed within ⊢
  obtain ⟨base, before, digits⟩ := digits
  dsimp only at lexed within ⊢
  rw [List.take_append_of_le_length within, List.drop_append_of_le_length within,
    takeWhile_break (by decide)]
  refine ⟨lexed, ?_⟩
  split at lexed
  · obtain rfl := Except.ok.inj lexed
    have suffix := (List.takeWhile_prefix isSuffix
      (l := cs.drop (before + digits.length))).length_le
    rw [List.length_drop] at suffix
    dsimp only
    omega
  · cases lexed

theorem lexeme_break {c : Char} (solid : isBlank c = false) {rest : List Char}
    {found : Lexeme × Nat} (lexed : lexeme 0 (c :: rest) = .ok found) (more : List Char) :
    lexeme 0 (c :: rest ++ '\n' :: more) = .ok found ∧ found.2 ≤ (c :: rest).length := by
  rw [lexeme, solid, if_neg Bool.false_ne_true] at lexed
  rw [List.cons_append, lexeme, solid, if_neg Bool.false_ne_true, ← List.cons_append]
  cases comment : commentLength? (c :: rest) with
  | some n =>
    rw [comment] at lexed
    obtain rfl := Except.ok.inj lexed
    obtain ⟨same, within⟩ := commentLength?_break comment more
    exact ⟨by rw [same], within⟩
  | none =>
    rw [comment] at lexed
    have other : c ≠ '/' := by
      rintro rfl
      cases lexed
    rw [List.cons_append, commentLength?_solid other, ← List.cons_append]
    dsimp only at lexed ⊢
    by_cases start : isWordStart c = true
    · rw [if_pos start] at lexed ⊢
      obtain rfl := Except.ok.inj lexed
      have within := nameLength_le (c :: rest).length (c :: rest)
      rw [nameLength_break more (by simp) (Nat.le_refl _), List.take_append_of_le_length within]
      exact ⟨rfl, within⟩
    rw [if_neg start] at lexed ⊢
    by_cases digit : c.isDigit = true
    · rw [if_pos digit] at lexed ⊢
      exact numberLexeme_break lexed more
    rw [if_neg digit] at lexed ⊢
    by_cases dots : ['.', '.', '.'].isPrefixOf (c :: rest) = true
    · have longer := List.isPrefixOf_iff_prefix.1 dots
      rw [if_pos dots] at lexed
      obtain rfl := Except.ok.inj lexed
      rw [if_pos (List.isPrefixOf_iff_prefix.2 (longer.trans (List.prefix_append _ _)))]
      exact ⟨rfl, longer.length_le⟩
    rw [if_neg dots] at lexed
    by_cases symbol : isMark c = true
    · rw [if_pos symbol] at lexed
      obtain rfl := Except.ok.inj lexed
      have other : ¬ ['.', '.', '.'].isPrefixOf (c :: rest ++ '\n' :: more) = true := by
        intro dots
        obtain ⟨rfl, -⟩ := List.cons_prefix_cons.1 (List.isPrefixOf_iff_prefix.1 dots)
        revert symbol
        decide
      rw [if_neg other, if_pos symbol]
      exact ⟨rfl, Nat.succ_le_succ (Nat.zero_le _)⟩
    · rw [if_neg symbol] at lexed
      cases lexed

theorem read?_break {front : List Char} {tokens : List CToken} (lexed : read? front = some tokens)
    (back : List Char) : read? (front ++ '\n' :: back) = (read? back).map (tokens ++ ·) := by
  -- One lexeme drops any number of characters, so the induction is on how many there are.
  induction length : front.length using Nat.strongRecOn generalizing front tokens with
  | ind n ih =>
    subst length
    cases front with
    | nil =>
      rw [read?_nil] at lexed
      obtain rfl := Option.some.inj lexed
      rw [List.nil_append, read?_blank (by decide)]
      exact Option.map_id_apply.symm
    | cons c rest =>
      cases solid : isBlank c with
      | true =>
        rw [read?_blank solid] at lexed
        rw [List.cons_append, read?_blank solid]
        exact ih _ (by simp) lexed rfl
      | false =>
        rw [read?_cons] at lexed
        obtain ⟨found, first, others⟩ := Option.bind_eq_some_iff.1 lexed
        obtain ⟨inner, left, rfl⟩ := Option.map_eq_some_iff.1 others
        obtain ⟨again, within⟩ := lexeme_break solid (eq_ok_of_toOption first) back
        have shorter : (rest.drop (found.2 - 1)).length < (c :: rest).length := by
          rw [List.length_drop, List.length_cons]
          omega
        have behind : (rest ++ '\n' :: back).drop (found.2 - 1) =
            rest.drop (found.2 - 1) ++ '\n' :: back :=
          List.drop_append_of_le_length (by rw [List.length_cons] at within; omega)
        rw [List.cons_append, read?_cons, ← List.cons_append, again]
        show (read? ((rest ++ '\n' :: back).drop (found.2 - 1))).map _ = _
        rw [behind, ih _ shorter left rfl, Option.map_map]
        congr 1
        funext tokens
        exact (List.append_assoc _ _ _).symm

end Breaks

end CToken

namespace QualifiedName

theorem pieces_other {c : Char} (other : c ≠ ':') (rest : List Char) :
    pieces (c :: rest) = ((c :: (pieces rest).headI) :: (pieces rest).tail) := by
  have some_piece := pieces_ne_nil rest
  rw [pieces.eq_3 c rest fun _ colon => absurd colon other]
  cases made : pieces rest with
  | nil => exact absurd made some_piece
  | cons piece others => rfl

theorem pieces_word {w : List Char} (whole : ':' ∉ w) : pieces w = [w] := by
  induction w with
  | nil => rfl
  | cons c rest ih =>
    obtain ⟨other, whole⟩ := not_or.1 (mt List.mem_cons.2 whole)
    rw [pieces_other (Ne.symm other), ih whole]
    rfl

theorem pieces_joined {w : List Char} (whole : ':' ∉ w) (rest : List Char) :
    pieces (w ++ ':' :: ':' :: rest) = w :: pieces rest := by
  induction w with
  | nil => rw [List.nil_append, pieces]
  | cons c others ih =>
    obtain ⟨other, whole⟩ := not_or.1 (mt List.mem_cons.2 whole)
    rw [List.cons_append, pieces_other (Ne.symm other), ih whole]
    rfl

theorem intercalate_pieces (cs : List Char) : [':', ':'].intercalate (pieces cs) = cs := by
  fun_induction pieces cs with
  | case1 => rfl
  | case2 rest ih => rw [List.intercalate_cons_of_ne_nil (pieces_ne_nil rest), ih]; rfl
  | case3 c rest other made ih => exact absurd made (pieces_ne_nil rest)
  | case4 c rest other piece others made ih =>
    rw [made] at ih
    cases others with
    | nil =>
      rw [List.intercalate_singleton] at ih ⊢
      rw [ih]
    | cons next others =>
      rw [List.intercalate_cons_cons] at ih ⊢
      rw [List.cons_append, List.cons_append, ih]

theorem trim_solid {cs : List Char} (solid : ∀ c ∈ cs, isBlank c = false) : trim cs = cs := by
  have kept {cs : List Char} (solid : ∀ c ∈ cs, isBlank c = false) : cs.dropWhile isBlank = cs :=
    List.dropWhile_eq_self_iff.2 fun inside => by simp [solid]
  rw [trim, trimLeft, kept solid, trimRight,
    kept fun c member => solid c (List.mem_reverse.1 member), List.reverse_reverse]

/-- Pieces with something in them and no blanks are the components of a name that is written as it
stands. -/
theorem parse_of_pieces {w : String}
    (proper : ∀ piece ∈ pieces w.toList, piece ≠ [] ∧ ∀ c ∈ piece, isBlank c = false) :
    ∃ q, parse w = .ok q ∧ q.text = w := by
  have parts : (pieces w.toList).map (fun piece => String.ofList (trim piece)) =
      (pieces w.toList).map String.ofList :=
    List.map_congr_left fun piece member => by rw [trim_solid (proper piece member).2]
  have well_formed : (pieces w.toList).map String.ofList ≠ [] ∧
      ∀ c ∈ (pieces w.toList).map String.ofList, c ≠ "" := by
    refine ⟨fun none => pieces_ne_nil _ (List.map_eq_nil_iff.1 none), fun c member => ?_⟩
    obtain ⟨piece, listed, rfl⟩ := List.mem_map.1 member
    exact fun empty => (proper piece listed).1 (by simpa using congrArg String.toList empty)
  refine ⟨⟨_, well_formed.1, well_formed.2⟩, ?_, ?_⟩
  · rw [parse, parts, ofComponents, dif_pos well_formed]
  · apply String.toList_injective
    rw [text, String.toList_intercalate, List.map_map]
    have back : String.toList ∘ String.ofList = id := funext fun cs => String.toList_ofList
    rw [back, List.map_id]
    exact intercalate_pieces w.toList

end QualifiedName

namespace CToken

open QualifiedName

theorem isWordPart_solid {c : Char} (part : isWordPart c = true) :
    isBlank c = false ∧ c ≠ ':' := by
  refine ⟨?_, fun colon => by rw [colon] at part; revert part; decide⟩
  -- All parts of words are at most `z`, and no blank is as high as the first digit there.
  have range : 48 ≤ c.toNat ∧ c.toNat ≤ 122 := by
    have part : (decide (65 ≤ c.val ∧ c.val ≤ 90) ||
        decide (97 ≤ c.val) && decide (c.val ≤ 122) ||
        decide (48 ≤ c.val) && decide (c.val ≤ 57) || c == '_') = true := part
    simp only [Bool.or_eq_true, Bool.and_eq_true, decide_eq_true_eq, beq_iff_eq,
      UInt32.le_iff_toNat_le] at part
    obtain ((upper | lower) | digit) | rfl := part
    · have bounds : 65 ≤ c.toNat ∧ c.toNat ≤ 90 := upper
      omega
    · have bounds : 97 ≤ c.toNat ∧ c.toNat ≤ 122 := lower
      omega
    · have bounds : 48 ≤ c.toNat ∧ c.toNat ≤ 57 := digit
      omega
    · decide
  unfold isBlank
  simp only [Bool.or_eq_false_iff, Bool.and_eq_false_iff, decide_eq_false_iff_not,
    beq_eq_false_iff_ne]
  omega

theorem isWordPart_of_start {c : Char} (start : isWordStart c = true) : isWordPart c = true := by
  simp only [isWordStart, isWordPart, Char.isAlphanum, Bool.or_eq_true] at start ⊢
  exact start.imp_left .inl

/-- A text of words that are joined by colons. -/
def IsName (cs : List Char) : Prop :=
  ∀ piece ∈ pieces cs, piece ≠ [] ∧ ∀ c ∈ piece, isBlank c = false

theorem takeWhile_word {c : Char} (start : isWordStart c = true) (rest : List Char) :
    (c :: rest).takeWhile isWordPart ≠ [] ∧ ':' ∉ (c :: rest).takeWhile isWordPart ∧
      ∀ d ∈ (c :: rest).takeWhile isWordPart, isBlank d = false := by
  have parts : ∀ d ∈ (c :: rest).takeWhile isWordPart, isWordPart d = true := fun d member =>
    List.mem_takeWhile_imp member
  refine ⟨?_, fun colon => ?_, fun d member => (isWordPart_solid (parts d member)).1⟩
  · rw [List.takeWhile_cons_of_pos (isWordPart_of_start start)]
    exact List.cons_ne_nil _ _
  · exact (isWordPart_solid (parts _ colon)).2 rfl

theorem take_nameLength_isName {fuel : Nat} {c : Char} (start : isWordStart c = true)
    {rest : List Char} (enough : (c :: rest).length ≤ fuel) :
    IsName ((c :: rest).take (nameLength fuel (c :: rest))) := by
  induction fuel generalizing c rest with
  | zero => exact absurd enough (Nat.not_succ_le_zero _)
  | succ fuel ih =>
    obtain ⟨some_part, whole, solid⟩ := takeWhile_word start rest
    by_cases joined : ∃ d inner, Joined (c :: rest) d inner
    · obtain ⟨d, inner, joined⟩ := joined
      have shorter := joined.length_lt
      have others : IsName ((d :: inner).take (nameLength fuel (d :: inner))) :=
        ih joined.2 (by omega)
      have parts : c :: rest = (c :: rest).takeWhile isWordPart ++ ':' :: ':' :: d :: inner := by
        have front := List.prefix_iff_eq_take.1 (List.takeWhile_prefix isWordPart (l := c :: rest))
        have split := List.take_append_drop ((c :: rest).takeWhile isWordPart).length (c :: rest)
        rw [← front] at split
        exact split.symm.trans (congrArg _ joined.1)
      have taken : (c :: rest).take (nameLength (fuel + 1) (c :: rest)) =
          (c :: rest).takeWhile isWordPart ++
            ':' :: ':' :: (d :: inner).take (nameLength fuel (d :: inner)) := by
        rw [nameLength_joined joined]
        generalize (c :: rest).takeWhile isWordPart = word at parts
        rw [parts, Nat.add_assoc, List.take_length_add_append, Nat.add_comm 2]
        rfl
      rw [taken, IsName, pieces_joined whole]
      exact List.forall_mem_cons.2 ⟨⟨some_part, solid⟩, others⟩
    · have taken := List.prefix_iff_eq_take.1 (List.takeWhile_prefix isWordPart (l := c :: rest))
      rw [nameLength_alone joined, ← taken, IsName, pieces_word whole]
      exact List.forall_mem_singleton.2 ⟨some_part, solid⟩

theorem lexeme_word {c : Char} {rest : List Char} {w : String} {n : Nat}
    (lexed : lexeme 0 (c :: rest) = .ok (.token (.word w), n)) : IsName w.toList := by
  rw [lexeme] at lexed
  split at lexed
  · cases lexed
  split at lexed
  · cases lexed
  split at lexed
  next start =>
    obtain ⟨same, -⟩ := Prod.mk.inj (Except.ok.inj lexed)
    obtain rfl := CToken.word.inj (Lexeme.token.inj same)
    rw [String.toList_ofList]
    exact take_nameLength_isName start (Nat.le_refl _)
  next =>
    -- All other tokens are none.
    dsimp only at lexed
    repeat' split at lexed
    all_goals cases lexed

/-- Every word that is read is a name as it stands. -/
theorem read?_words {cs : List Char} {tokens : List CToken} (read : read? cs = some tokens)
    {w : String} (member : .word w ∈ tokens) : ∃ q, parse w = .ok q ∧ q.text = w := by
  induction length : cs.length using Nat.strongRecOn generalizing cs tokens with
  | ind n ih =>
    subst length
    cases cs with
    | nil =>
      rw [read?_nil] at read
      obtain rfl := Option.some.inj read
      cases member
    | cons c rest =>
      rw [read?_cons] at read
      obtain ⟨found, first, others⟩ := Option.bind_eq_some_iff.1 read
      obtain ⟨inner, left, rfl⟩ := Option.map_eq_some_iff.1 others
      obtain here | later := List.mem_append.1 member
      · obtain ⟨kind, n⟩ := found
        cases kind with
        | skipped => cases here
        | token t =>
          obtain rfl := List.mem_singleton.1 here
          exact parse_of_pieces (lexeme_word (eq_ok_of_toOption first))
      · have shorter : (rest.drop (found.2 - 1)).length < (c :: rest).length := by
          rw [List.length_drop, List.length_cons]
          omega
        exact ih _ shorter left later rfl

end CToken

end BinaryAtlas
