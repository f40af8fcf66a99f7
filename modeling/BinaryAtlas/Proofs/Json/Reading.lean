import BinaryAtlas.Json.Parser
import BinaryAtlas.Json.Printer
import Mathlib.Data.List.TakeWhile

/-!
What is printed is read back. Whole numbers, strings and what is made of them come back as they
were, as long as they are not nested deeper than is wanted.
-/

set_option autoImplicit false

namespace BinaryAtlas

namespace Numeral

/-- The numbers that are kept as they are written: whole ones of 64 bits, with or without a sign. -/
def IsWhole : Numeral → Prop
  | .integer i => -0x8000000000000000 ≤ i ∧ i < 0x10000000000000000
  | .decimal .. => False

variable {n m k : Nat} {digits more : List Char}

theorem gather_append (gathered : gather m digits = (k, [])) :
    gather m (digits ++ more) = gather k more := by
  induction digits generalizing m with
  | nil =>
    obtain rfl : m = k := congrArg Prod.fst gathered
    rfl
  | cons c digits ih =>
    rw [List.cons_append]
    simp only [gather] at gathered ⊢
    split
    · rename_i fits
      rw [if_pos fits] at gathered
      exact ih gathered
    · rename_i beyond
      rw [if_neg beyond] at gathered
      cases gathered

theorem gather_toDigits (fits : n < 0x10000000000000000) :
    gather 0 (Nat.toDigits 10 n) = (n, []) := by
  induction n using Nat.strongRecOn with
  | ind n ih =>
    rcases Nat.lt_or_ge n 10 with one | more
    · have value : 10 * 0 + ((Nat.digitChar n).toNat - 48) = n := by
        rw [Nat.toNat_digitChar_sub_48_of_lt_ten one]
        omega
      simp only [Nat.toDigits_of_lt_base one, gather, value, fits, if_true]
    · have value : 10 * (n / 10) + ((Nat.digitChar (n % 10)).toNat - 48) = n := by
        rw [Nat.toNat_digitChar_sub_48_of_lt_ten (Nat.mod_lt _ (by decide))]
        omega
      rw [Nat.toDigits_of_base_le (by decide) more,
        gather_append (ih (n / 10) (by omega) (by omega))]
      simp only [gather, value, fits, if_true]

/-- Only the number zero begins with a zero. -/
theorem eq_zero_of_toDigits {rest : List Char} (begins : Nat.toDigits 10 n = '0' :: rest) :
    n = 0 := by
  induction n using Nat.strongRecOn generalizing rest with
  | ind n ih =>
    rcases Nat.lt_or_ge n 10 with one | more
    · rw [Nat.toDigits_of_lt_base one] at begins
      exact Nat.digitChar_eq_zero.1 (List.cons.inj begins).1
    · rw [Nat.toDigits_of_base_le (by decide) more] at begins
      cases front : Nat.toDigits 10 (n / 10) with
      | nil => exact absurd front Nat.toDigits_ne_nil
      | cons c front' =>
        rw [front] at begins
        obtain ⟨rfl, -⟩ := List.cons.inj begins
        have := ih (n / 10) (by omega) front
        omega

end Numeral

namespace Json

-- Printers and readers are unfolded one step at a time.
attribute [local simp] prettyAt prettyItems prettyMembers readValue readItems readMembers

/-- What follows does not go on with a number. -/
def Ends (rest : List Char) : Prop :=
  ∀ c ∈ rest.head?, c.isDigit = false ∧ c ≠ '.' ∧ c ≠ 'e' ∧ c ≠ 'E'

variable {n : Nat} {rest : List Char}

theorem readDigits_toDigits (ends : Ends rest) :
    readDigits (Nat.toDigits 10 n ++ rest) = some (Nat.toDigits 10 n, rest) := by
  have all : ∀ c ∈ Nat.toDigits 10 n, c.isDigit = true := fun c member =>
    Nat.isDigit_of_mem_toDigits (by decide) (by decide) member
  have beyond : rest.takeWhile Char.isDigit = [] ∧ rest.dropWhile Char.isDigit = rest := by
    cases rest with
    | nil => exact ⟨rfl, rfl⟩
    | cons c rest =>
      have apart := (ends c rfl).1
      exact ⟨List.takeWhile_cons_of_neg (by simp [apart]),
        List.dropWhile_cons_of_neg (by simp [apart])⟩
  have some_ : (Nat.toDigits 10 n).isEmpty = false := by simp
  rw [readDigits, List.takeWhile_append_of_pos all, List.dropWhile_append_of_pos all, beyond.1,
    beyond.2, List.append_nil, some_]
  rfl

theorem readWhole_toDigits (ends : Ends rest) :
    readWhole (Nat.toDigits 10 n ++ rest) = some (Nat.toDigits 10 n, rest) := by
  rw [readWhole, readDigits_toDigits ends]
  split
  · rename_i next more _ same
    have begins : Nat.toDigits 10 n = '0' :: next :: more :=
      congrArg Prod.fst (Option.some.inj same)
    obtain rfl := Numeral.eq_zero_of_toDigits begins
    cases begins
  · rfl

theorem readFraction_ends (ends : Ends rest) : readFraction rest = some ([], rest) := by
  cases rest with
  | nil => rfl
  | cons c rest =>
    rw [readFraction]
    rintro _ same
    exact (ends c rfl).2.1 (List.cons.inj same).1

theorem readExponent_ends (ends : Ends rest) : readExponent rest = some (none, rest) := by
  cases rest with
  | nil => rfl
  | cons c rest =>
    obtain ⟨-, -, low, high⟩ := ends c rfl
    simp [readExponent, low, high]

theorem readMagnitude_toDigits {negative : Bool} (fits : n < 0x10000000000000000)
    (whole : Numeral.isWhole negative n = true) (ends : Ends rest) :
    readMagnitude negative (Nat.toDigits 10 n ++ rest) =
      some (some (.integer (if negative then -n else n)), rest) := by
  simp [readMagnitude, readWhole_toDigits ends, readFraction_ends ends, readExponent_ends ends,
    Numeral.ofDigits?, Numeral.gather_toDigits fits, whole]

/-- Whether a whole number has a sign is read from its first character. -/
theorem readNumeral_text {i : Int} (whole : Numeral.IsWhole (.integer i)) (ends : Ends rest) :
    readNumeral ((Numeral.integer i).text.toList ++ rest) = some (some (.integer i), rest) := by
  obtain ⟨above, below⟩ := whole
  cases i with
  | ofNat n =>
    have text : (Numeral.integer (.ofNat n)).text.toList = Nat.toDigits 10 n := Nat.toList_repr
    have unsigned : ∀ cs, Nat.toDigits 10 n ++ rest ≠ '-' :: cs := fun cs same => by
      have digit : '-' ∈ Nat.toDigits 10 n := by
        cases digits_eq : Nat.toDigits 10 n with
        | nil => exact absurd digits_eq Nat.toDigits_ne_nil
        | cons c digits =>
          rw [digits_eq] at same
          exact (List.cons.inj same).1 ▸ List.mem_cons_self
      have := Nat.isDigit_of_mem_toDigits (by decide) (by decide) digit
      exact absurd this (by decide)
    have fits : n < 0x10000000000000000 := by
      have : (Int.ofNat n : Int) = n := rfl
      omega
    rw [text, readNumeral]
    · exact readMagnitude_toDigits fits rfl ends
    · exact unsigned
  | negSucc n =>
    have text : (Numeral.integer (.negSucc n)).text.toList = '-' :: Nat.toDigits 10 (n + 1) := by
      show ("-" ++ (n + 1).repr).toList = _
      rw [String.toList_append, Nat.toList_repr]
      rfl
    have whole : Numeral.isWhole true (n + 1) = true := by
      simp [Numeral.isWhole]
      omega
    rw [text, List.cons_append, readNumeral, readMagnitude_toDigits (by omega) whole ends]
    rfl

theorem hexDigits_four : ∀ n < 0x20, (hexDigitsPadded 4 n).toList =
      ['0', '0', (n / 16).digitChar, (n % 16).digitChar] ∧
    readUnit '0' '0' (n / 16).digitChar (n % 16).digitChar = some n := by
  decide +kernel

/-- A character in a string is written as it stands, by a letter that stands for it, or by its
number. -/
theorem escapeChar_cases (c : Char) :
    (∃ e, escapeChar c = ['\\', e] ∧ e ≠ 'u' ∧ unescape? e = some c) ∨
      (escapeChar c = ['\\', 'u'] ++ (hexDigitsPadded 4 c.toNat).toList ∧ c.toNat < 0x20) ∨
      escapeChar c = [c] ∧ c ≠ '"' ∧ c ≠ '\\' ∧ 0x20 ≤ c.toNat := by
  by_cases special : c ∈ ['"', '\\', '\n', '\r', '\t', '\x08', '\x0c']
  · simp only [List.mem_cons, List.not_mem_nil, or_false] at special
    rcases special with rfl | rfl | rfl | rfl | rfl | rfl | rfl <;>
      exact .inl ⟨_, rfl, by decide, rfl⟩
  · simp only [List.mem_cons, List.not_mem_nil, or_false, not_or] at special
    simp only [escapeChar, special, if_false]
    split
    · rename_i control
      exact .inr (.inl ⟨rfl, control⟩)
    · rename_i visible
      exact .inr (.inr ⟨rfl, special.1, special.2.1, Nat.le_of_not_lt visible⟩)

theorem readChars_escapeChar (wanted : Bool) (c : Char) (rest : List Char) :
    readChars wanted (escapeChar c ++ rest) =
      (readChars wanted rest).map fun (s, r) => (c :: s, r) := by
  rcases escapeChar_cases c with ⟨e, text, other, value⟩ | ⟨text, control⟩ |
    ⟨text, quote, slash, visible⟩
  · rw [text, List.cons_append, List.singleton_append, readChars, value]
    intro _ _ _ _ _ same
    exact absurd same other
  · obtain ⟨digits, unit⟩ := hexDigits_four c.toNat control
    have low : c.toNat < 0xd800 ∨ 0xe000 ≤ c.toNat := .inl (by omega)
    rw [text, digits]
    simp only [List.cons_append, List.nil_append, readChars, unit, if_pos low, Char.ofNat_toNat]
  · have plain : ¬ (c.toNat < 0x20 ∨ c = '\\') := by
      rintro (control | same)
      · omega
      · exact slash same
    rw [text, List.singleton_append, readChars, if_neg plain]
    · exact quote
    · intro _ _ _ _ _ same
      exact absurd same slash
    · intro _ _ same
      exact absurd same slash

/-- What is written between quotes comes back. -/
theorem readChars_quote (wanted : Bool) (s : List Char) (rest : List Char) :
    readChars wanted (s.flatMap escapeChar ++ '"' :: rest) = some (s, rest) := by
  induction s with
  | nil => rfl
  | cons c s ih =>
    rw [List.flatMap_cons, List.append_assoc, readChars_escapeChar, ih]
    rfl

mutual

/-- All of a value is wanted, no array or object is nested too deep, and its numbers are whole. -/
def Kept : Interest → Json → Prop
  | _, .number n => n.IsWhole
  | interest, .array items => ∃ inside, interest.inside? = some inside ∧ KeptItems inside items
  | interest, .object members =>
    ∃ inside, interest.inside? = some inside ∧ KeptMembers inside members
  | _, _ => True
termination_by structural _ v => v

def KeptItems : Interest → List Json → Prop
  | _, [] => True
  | interest, v :: rest => Kept interest.ofFirst v ∧ KeptItems interest.ofOthers rest
termination_by structural _ l => l

def KeptMembers : Interest → List (String × Json) → Prop
  | _, [] => True
  | interest, (name, v) :: rest => Kept (interest.ofMember name) v ∧ KeptMembers interest rest
termination_by structural _ l => l

end

variable {interest : Interest} {fuel depth : Nat} {v : Json} {cs blanks : List Char}

theorem skipBlank_append (blank : ∀ c ∈ blanks, isBlank c = true) (cs : List Char) :
    skipBlank (blanks ++ cs) = skipBlank cs :=
  List.dropWhile_append_of_pos blank

theorem skipBlank_cons {c : Char} (solid : isBlank c = false) (cs : List Char) :
    skipBlank (c :: cs) = c :: cs :=
  List.dropWhile_cons_of_neg (by simp [solid])

theorem readValue_skip (blank : ∀ c ∈ blanks, isBlank c = true) (fuel : Nat) (interest : Interest)
    (cs : List Char) : readValue fuel interest (blanks ++ cs) = readValue fuel interest cs := by
  cases fuel with
  | zero => simp
  | succ fuel => simp only [readValue, skipBlank_append blank]

theorem readItems_skip (blank : ∀ c ∈ blanks, isBlank c = true) (fuel : Nat) (interest : Interest)
    (cs : List Char) : readItems fuel interest (blanks ++ cs) = readItems fuel interest cs := by
  cases fuel with
  | zero => simp
  | succ fuel => simp only [readItems, readValue_skip blank]

theorem readMembers_skip (blank : ∀ c ∈ blanks, isBlank c = true) (fuel : Nat) (interest : Interest)
    (cs : List Char) : readMembers fuel interest (blanks ++ cs) = readMembers fuel interest cs := by
  cases fuel with
  | zero => simp
  | succ fuel => simp only [readMembers, skipBlank_append blank]

theorem blank_newline (depth : Nat) : ∀ c ∈ (newline depth).toList, isBlank c = true := by
  intro c member
  rw [newline, String.toList_ofList, List.mem_cons, List.mem_replicate] at member
  rcases member with rfl | ⟨-, rfl⟩ <;> rfl

theorem blank_space : ∀ c ∈ [' '], isBlank c = true :=
  List.forall_mem_singleton.2 rfl

theorem ends_newline (depth : Nat) (rest : List Char) : Ends ((newline depth).toList ++ rest) := by
  rw [newline, String.toList_ofList, List.cons_append]
  intro c first
  obtain rfl := Option.some.inj first
  decide

theorem ends_comma (rest : List Char) : Ends (',' :: rest) := by
  intro c first
  obtain rfl := Option.some.inj first
  decide

theorem numeral_head {i : Int} : ∃ c cs, (Numeral.integer i).text.toList = c :: cs ∧
    (c.isDigit = true ∨ c = '-') := by
  cases i with
  | ofNat n =>
    have text : (Numeral.integer (.ofNat n)).text.toList = Nat.toDigits 10 n := Nat.toList_repr
    cases digits_eq : Nat.toDigits 10 n with
    | nil => exact absurd digits_eq Nat.toDigits_ne_nil
    | cons c digits =>
      have member : c ∈ Nat.toDigits 10 n := digits_eq ▸ List.mem_cons_self
      exact ⟨c, digits, text.trans digits_eq,
        .inl (Nat.isDigit_of_mem_toDigits (by decide) (by decide) member)⟩
  | negSucc n =>
    refine ⟨'-', (n + 1).repr.toList, ?_, .inr rfl⟩
    show ("-" ++ (n + 1).repr).toList = _
    rw [String.toList_append]
    rfl

theorem numeric_apart {c : Char} (numeric : c.isDigit = true ∨ c = '-') :
    isBlank c = false ∧ c ∉ ['"', '[', '\x7b', 't', 'f', 'n', ']'] := by
  rcases numeric with digit | rfl
  · have apart : ∀ d ∈ [' ', '\n', '\t', '\r', '"', '[', '\x7b', 't', 'f', 'n', ']'], c ≠ d := by
      rintro d member rfl
      have none_ : ∀ d ∈ [' ', '\n', '\t', '\r', '"', '[', '\x7b', 't', 'f', 'n', ']'],
          d.isDigit = false := by
        simp only [List.forall_mem_cons, List.not_mem_nil, false_imp_iff, implies_true, and_true]
        decide
      rw [none_ c member] at digit
      cases digit
    simp only [List.forall_mem_cons] at apart
    simp [isBlank, apart]
  · decide

theorem readValue_numeral {c : Char} {n : Numeral} (numeric : c.isDigit = true ∨ c = '-')
    (read : readNumeral (c :: cs) = some (some n, rest)) (fuel : Nat) (interest : Interest) :
    readValue (fuel + 1) interest (c :: cs) = some (.number n, rest) := by
  obtain ⟨solid, apart⟩ := numeric_apart numeric
  simp only [List.mem_cons, List.not_mem_nil, or_false, not_or] at apart
  obtain ⟨quote, bracket, brace, t, f, n, -⟩ := apart
  rw [readValue, skipBlank_cons solid]
  split
  · rename_i same
    exact absurd (List.cons.inj same).1 quote
  · rename_i same
    exact absurd (List.cons.inj same).1 bracket
  · rename_i same
    exact absurd (List.cons.inj same).1 brace
  · rename_i same
    exact absurd (List.cons.inj same).1 t
  · rename_i same
    exact absurd (List.cons.inj same).1 f
  · rename_i same
    exact absurd (List.cons.inj same).1 n
  · rw [read]

theorem toList_prettyAt_null : (prettyAt depth .null).toList = ['n', 'u', 'l', 'l'] := by
  simp

theorem toList_prettyAt_false :
    (prettyAt depth (.bool false)).toList = ['f', 'a', 'l', 's', 'e'] := by
  simp

theorem toList_prettyAt_true : (prettyAt depth (.bool true)).toList = ['t', 'r', 'u', 'e'] := by
  simp

theorem toList_prettyAt_string {s : String} :
    (prettyAt depth (.string s)).toList = '"' :: (s.toList.flatMap escapeChar ++ ['"']) := by
  rw [prettyAt, quote, String.toList_ofList]

theorem toList_prettyAt_noItems : (prettyAt depth (.array [])).toList = ['[', ']'] := by
  simp

theorem toList_prettyAt_noMembers : (prettyAt depth (.object [])).toList = ['\x7b', '\x7d'] := by
  simp

theorem toList_prettyAt_array {rest : List Json} :
    (prettyAt depth (.array (v :: rest))).toList =
      '[' :: ((newline (depth + 1)).toList ++ ((prettyAt (depth + 1) v).toList ++
        ((prettyItems (depth + 1) rest).toList ++ ((newline depth).toList ++ [']'])))) := by
  simp

theorem toList_prettyItems {rest : List Json} :
    (prettyItems depth (v :: rest)).toList =
      ',' :: ((newline depth).toList ++ ((prettyAt depth v).toList ++
        (prettyItems depth rest).toList)) := by
  simp

theorem toList_prettyAt_object {name : String} {rest : List (String × Json)} :
    (prettyAt depth (.object ((name, v) :: rest))).toList =
      '\x7b' :: ((newline (depth + 1)).toList ++ ('"' :: (name.toList.flatMap escapeChar ++
        '"' :: ':' :: ' ' :: ((prettyAt (depth + 1) v).toList ++
          ((prettyMembers (depth + 1) rest).toList ++
            ((newline depth).toList ++ ['\x7d'])))))) := by
  simp [quote]

theorem toList_prettyMembers {name : String} {rest : List (String × Json)} :
    (prettyMembers depth ((name, v) :: rest)).toList =
      ',' :: ((newline depth).toList ++ ('"' :: (name.toList.flatMap escapeChar ++
        '"' :: ':' :: ' ' ::
          ((prettyAt depth v).toList ++ (prettyMembers depth rest).toList)))) := by
  simp [quote]

/-- A printed value begins with neither a blank nor a bracket that closes. -/
theorem prettyAt_head (kept : Kept interest v) (depth : Nat) :
    ∃ c cs, (prettyAt depth v).toList = c :: cs ∧ isBlank c = false ∧ c ≠ ']' := by
  cases v with
  | null => exact ⟨'n', _, toList_prettyAt_null, by decide, by decide⟩
  | bool b =>
    cases b with
    | false => exact ⟨'f', _, toList_prettyAt_false, by decide, by decide⟩
    | true => exact ⟨'t', _, toList_prettyAt_true, by decide, by decide⟩
  | number n =>
    cases n with
    | integer i =>
      obtain ⟨c, cs, text, numeric⟩ := numeral_head (i := i)
      obtain ⟨solid, apart⟩ := numeric_apart numeric
      refine ⟨c, cs, text, solid, ?_⟩
      rintro rfl
      exact apart (by decide)
    | decimal => exact kept.elim
  | string s => exact ⟨'"', _, toList_prettyAt_string, by decide, by decide⟩
  | array items =>
    cases items with
    | nil => exact ⟨'[', _, toList_prettyAt_noItems, by decide, by decide⟩
    | cons v rest => exact ⟨'[', _, toList_prettyAt_array, by decide, by decide⟩
  | object members =>
    cases members with
    | nil => exact ⟨'\x7b', _, toList_prettyAt_noMembers, by decide, by decide⟩
    | cons m rest => exact ⟨'\x7b', _, toList_prettyAt_object, by decide, by decide⟩

theorem skipBlank_newline (depth : Nat) (cs : List Char) :
    skipBlank ((newline depth).toList ++ cs) = skipBlank cs :=
  skipBlank_append (blank_newline depth) cs

/-- A value is read back from its text, with any indentation and whatever comes after it. -/
def ReadBack (v : Json) : Prop :=
  ∀ (interest : Interest), Kept interest v → ∀ (depth fuel : Nat) (rest : List Char), Ends rest →
    (prettyAt depth v).toList.length ≤ fuel →
      readValue (fuel + 1) interest ((prettyAt depth v).toList ++ rest) = some (v, rest)

theorem ReadBack.read (back : ReadBack v) (kept : Kept interest v) (ends : Ends rest)
    (enough : (prettyAt depth v).toList.length < fuel) :
    readValue fuel interest ((prettyAt depth v).toList ++ rest) = some (v, rest) := by
  obtain ⟨fuel, rfl⟩ := Nat.exists_eq_add_one_of_ne_zero (Nat.ne_zero_of_lt enough)
  exact back interest kept depth fuel rest ends (Nat.le_of_lt_succ enough)

theorem readBack_null : ReadBack .null := by
  intro interest _ depth fuel rest _ enough
  rw [toList_prettyAt_null, readValue]
  rfl

theorem readBack_bool (b : Bool) : ReadBack (.bool b) := by
  intro interest _ depth fuel rest _ enough
  cases b with
  | false =>
    rw [toList_prettyAt_false, readValue]
    rfl
  | true =>
    rw [toList_prettyAt_true, readValue]
    rfl

theorem readBack_number (n : Numeral) : ReadBack (.number n) := by
  intro interest kept depth fuel rest ends enough
  cases n with
  | integer i =>
    obtain ⟨c, cs, text, numeric⟩ := numeral_head (i := i)
    have read := readNumeral_text kept ends
    rw [text] at read
    rw [prettyAt, text]
    exact readValue_numeral numeric read fuel interest
  | decimal => exact kept.elim

theorem readBack_string (s : String) : ReadBack (.string s) := by
  intro interest _ depth fuel rest _ enough
  rw [toList_prettyAt_string, List.cons_append, List.append_assoc, readValue,
    skipBlank_cons (by decide)]
  simp only [List.singleton_append, readChars_quote, Option.map_some, String.ofList_toList]

variable {items : List Json} {name : String} {members : List (String × Json)}

/-- The items after the first, up to the bracket that closes the array. -/
theorem readItems_pretty (back : ReadBack v) (others : ∀ w ∈ items, ReadBack w)
    (kept : KeptItems interest (v :: items))
    (enough : (prettyAt (depth + 1) v).toList.length +
      (prettyItems (depth + 1) items).toList.length + 1 < fuel) :
    readItems fuel interest ((prettyAt (depth + 1) v).toList ++
        ((prettyItems (depth + 1) items).toList ++ ((newline depth).toList ++ ']' :: rest))) =
      some (v :: items, rest) := by
  induction items generalizing v interest fuel with
  | nil =>
    obtain ⟨fuel, rfl⟩ := Nat.exists_eq_add_one_of_ne_zero (Nat.ne_zero_of_lt enough)
    have last := back.read kept.1 (ends_newline depth (']' :: rest))
      (show (prettyAt (depth + 1) v).toList.length < fuel by omega)
    have none_ : (prettyItems (depth + 1) []).toList = [] := by simp
    rw [none_, List.nil_append, readItems, last]
    simp only [skipBlank_newline, skipBlank_cons (show isBlank ']' = false by decide)]
  | cons w items ih =>
    obtain ⟨fuel, rfl⟩ := Nat.exists_eq_add_one_of_ne_zero (Nat.ne_zero_of_lt enough)
    rw [toList_prettyItems] at enough ⊢
    simp only [List.length_cons, List.length_append] at enough
    -- No number goes on with a comma, so the first item ends there.
    have following : readItems fuel interest.ofOthers ((prettyAt (depth + 1) w).toList ++
        ((prettyItems (depth + 1) items).toList ++ ((newline depth).toList ++ ']' :: rest))) =
          some (w :: items, rest) :=
      ih (others w List.mem_cons_self) (fun w member => others w (List.mem_cons_of_mem _ member))
        kept.2 (by omega)
    rw [List.cons_append, readItems, back.read kept.1 (ends_comma _) (by omega)]
    simp only [List.append_assoc, skipBlank_cons (show isBlank ',' = false by decide),
      readItems_skip (blank_newline _), following, Option.map_some]

/-- An array that is not empty begins with a character of its first item. -/
theorem readValue_items {inside : Interest} {c : Char} (wanted : interest.inside? = some inside)
    (solid : isBlank c = false) (apart : c ≠ ']') (depth : Nat)
    (read : readItems fuel inside (c :: cs) = some (items, rest)) :
    readValue (fuel + 1) interest ('[' :: ((newline depth).toList ++ c :: cs)) =
      some (.array items, rest) := by
  rw [readValue, skipBlank_cons (by decide)]
  simp only [wanted, skipBlank_newline, skipBlank_cons solid]
  split
  · rename_i none_
    cases none_
  · rename_i same
    exact absurd (List.cons.inj same).1 apart
  · rename_i some_ _
    obtain rfl := Option.some.inj some_
    rw [read]
    rfl

theorem readBack_array (all : ∀ v ∈ items, ReadBack v) : ReadBack (.array items) := by
  intro interest kept depth fuel rest _ enough
  obtain ⟨inside, wanted, kept⟩ := kept
  cases items with
  | nil =>
    rw [toList_prettyAt_noItems, List.cons_append, readValue, skipBlank_cons (by decide)]
    simp only [wanted, List.singleton_append, skipBlank_cons (show isBlank ']' = false by decide)]
  | cons v items =>
    obtain ⟨c, cs, head, solid, apart⟩ := prettyAt_head kept.1 (depth + 1)
    rw [toList_prettyAt_array] at enough ⊢
    simp only [List.length_cons, List.length_append] at enough
    have inner : readItems fuel inside ((prettyAt (depth + 1) v).toList ++
        ((prettyItems (depth + 1) items).toList ++ ((newline depth).toList ++ ']' :: rest))) =
          some (v :: items, rest) :=
      readItems_pretty (all v List.mem_cons_self)
        (fun w member => all w (List.mem_cons_of_mem _ member)) kept (by omega)
    rw [head] at inner ⊢
    simp only [List.cons_append, List.append_assoc, List.nil_append] at inner ⊢
    exact readValue_items wanted solid apart (depth + 1) inner

theorem readMembers_last {more : List Char}
    (first : readValue fuel (interest.ofMember name) cs = some (v, rest))
    (closed : skipBlank rest = '\x7d' :: more) :
    readMembers (fuel + 1) interest
        ('"' :: (name.toList.flatMap escapeChar ++ '"' :: ':' :: ' ' :: cs)) =
      some ([(name, v)], more) := by
  have spaced := (readValue_skip blank_space fuel (interest.ofMember name) cs).trans first
  rw [List.singleton_append] at spaced
  rw [readMembers, skipBlank_cons (by decide)]
  simp only [readChars_quote, String.ofList_toList,
    skipBlank_cons (show isBlank ':' = false by decide), spaced, closed]

theorem readMembers_more {more : List Char}
    (first : readValue fuel (interest.ofMember name) cs = some (v, rest))
    (apart : skipBlank rest = ',' :: more) :
    readMembers (fuel + 1) interest
        ('"' :: (name.toList.flatMap escapeChar ++ '"' :: ':' :: ' ' :: cs)) =
      (readMembers fuel interest more).map fun (l, r) => ((name, v) :: l, r) := by
  have spaced := (readValue_skip blank_space fuel (interest.ofMember name) cs).trans first
  rw [List.singleton_append] at spaced
  rw [readMembers, skipBlank_cons (by decide)]
  simp only [readChars_quote, String.ofList_toList,
    skipBlank_cons (show isBlank ':' = false by decide), spaced, apart]

theorem readValue_members {inside : Interest} (wanted : interest.inside? = some inside)
    (depth : Nat) (read : readMembers fuel inside ('"' :: cs) = some (members, rest)) :
    readValue (fuel + 1) interest ('\x7b' :: ((newline depth).toList ++ '"' :: cs)) =
      some (.object members, rest) := by
  rw [readValue, skipBlank_cons (by decide)]
  simp only [wanted, skipBlank_newline, skipBlank_cons (show isBlank '"' = false by decide)]
  split
  · rename_i none_
    cases none_
  · rename_i same
    exact absurd (List.cons.inj same).1 (by decide)
  · rename_i some_ _
    obtain rfl := Option.some.inj some_
    rw [read]
    rfl

/-- The members after a brace, up to the one that closes the object. -/
theorem readMembers_pretty (back : ReadBack v) (others : ∀ m ∈ members, ReadBack m.2)
    (kept : KeptMembers interest ((name, v) :: members))
    (enough : (prettyAt (depth + 1) v).toList.length +
      (prettyMembers (depth + 1) members).toList.length + 1 < fuel) :
    readMembers fuel interest ('"' :: (name.toList.flatMap escapeChar ++
        '"' :: ':' :: ' ' :: ((prettyAt (depth + 1) v).toList ++
          ((prettyMembers (depth + 1) members).toList ++
            ((newline depth).toList ++ '\x7d' :: rest))))) =
      some ((name, v) :: members, rest) := by
  induction members generalizing name v fuel with
  | nil =>
    obtain ⟨fuel, rfl⟩ := Nat.exists_eq_add_one_of_ne_zero (Nat.ne_zero_of_lt enough)
    have last := back.read kept.1 (ends_newline depth ('\x7d' :: rest))
      (show (prettyAt (depth + 1) v).toList.length < fuel by omega)
    have none_ : (prettyMembers (depth + 1) []).toList = [] := by simp
    rw [none_, List.nil_append]
    exact readMembers_last last ((skipBlank_newline _ _).trans (skipBlank_cons (by decide) _))
  | cons m members ih =>
    obtain ⟨name', w⟩ := m
    obtain ⟨fuel, rfl⟩ := Nat.exists_eq_add_one_of_ne_zero (Nat.ne_zero_of_lt enough)
    rw [toList_prettyMembers] at enough ⊢
    simp only [List.length_cons, List.length_append] at enough
    have following : readMembers fuel interest ('"' :: (name'.toList.flatMap escapeChar ++
        '"' :: ':' :: ' ' :: ((prettyAt (depth + 1) w).toList ++
          ((prettyMembers (depth + 1) members).toList ++
            ((newline depth).toList ++ '\x7d' :: rest))))) =
          some ((name', w) :: members, rest) :=
      ih (others (name', w) List.mem_cons_self)
        (fun m member => others m (List.mem_cons_of_mem _ member)) kept.2 (by omega)
    rw [List.cons_append, readMembers_more (back.read kept.1 (ends_comma _) (by omega))
      (skipBlank_cons (by decide) _)]
    simp only [List.cons_append, List.append_assoc, readMembers_skip (blank_newline _), following,
      Option.map_some]

theorem readBack_object (all : ∀ m ∈ members, ReadBack m.2) : ReadBack (.object members) := by
  intro interest kept depth fuel rest _ enough
  obtain ⟨inside, wanted, kept⟩ := kept
  cases members with
  | nil =>
    rw [toList_prettyAt_noMembers, List.cons_append, readValue, skipBlank_cons (by decide)]
    simp only [wanted, List.singleton_append,
      skipBlank_cons (show isBlank '\x7d' = false by decide)]
  | cons m members =>
    obtain ⟨name, v⟩ := m
    rw [toList_prettyAt_object] at enough ⊢
    simp only [List.length_cons, List.length_append] at enough
    have inner : readMembers fuel inside ('"' :: (name.toList.flatMap escapeChar ++
        '"' :: ':' :: ' ' :: ((prettyAt (depth + 1) v).toList ++
          ((prettyMembers (depth + 1) members).toList ++
            ((newline depth).toList ++ '\x7d' :: rest))))) =
          some ((name, v) :: members, rest) :=
      readMembers_pretty (all (name, v) List.mem_cons_self)
        (fun m member => all m (List.mem_cons_of_mem _ member)) kept (by omega)
    simp only [List.cons_append, List.append_assoc, List.nil_append]
    exact readValue_members wanted (depth + 1) inner

-- The induction is on the value; how deep it stands and what follows it differ from part to part.
mutual

theorem readBack : ∀ v : Json, ReadBack v
  | .null => readBack_null
  | .bool b => readBack_bool b
  | .number n => readBack_number n
  | .string s => readBack_string s
  | .array items => readBack_array (readBack_items items)
  | .object members => readBack_object (readBack_members members)

theorem readBack_items : ∀ items : List Json, ∀ v ∈ items, ReadBack v
  | [] => List.forall_mem_nil _
  | v :: items => List.forall_mem_cons.2 ⟨readBack v, readBack_items items⟩

theorem readBack_members : ∀ members : List (String × Json), ∀ m ∈ members, ReadBack m.2
  | [] => List.forall_mem_nil _
  | (_, v) :: members => List.forall_mem_cons.2 ⟨readBack v, readBack_members members⟩

end

/-- A value that is wanted as it is printed is read back from its text. -/
theorem parseFor?_pretty (kept : Kept interest v) : parseFor? interest v.pretty = some v := by
  have read := readBack v interest kept 0 (2 * v.pretty.toList.length + 1) []
    (by intro c first; cases first) (by rw [pretty]; omega)
  rw [List.append_nil] at read
  rw [parseFor?]
  simp only [pretty] at read ⊢
  rw [read]
  rfl

end Json

end BinaryAtlas
