import BinaryAtlas.Proofs.Declaration.Agreeing
import BinaryAtlas.Proofs.Declaration.Lexing
import BinaryAtlas.Proofs.Declaration.Records

/-!
Places of members are added up in words, which wrap. A structure holds its members, in order,
exactly where the same sums fit a word.
-/

set_option autoImplicit false

namespace BinaryAtlas

namespace DataType

/-- Every member ends within a width, and none begins before an earlier one. -/
structure Enclosed (members : List StructMember) (width : Word) : Prop where
  within : ∀ m ∈ members, m.stop ≤ width.toNat
  ordered : members.Pairwise fun m n => m.offset ≤ n.offset

theorem NaturallyLaid.enclosed {members : List StructMember} {width : Word}
    (laid : NaturallyLaid members width) : Enclosed members width := by
  have ordered (m : StructMember) : m.offset.toNat ≤ m.stop := Nat.le_add_right _ _
  constructor
  · intro m member
    obtain rfl | ⟨front, last, rfl⟩ := List.eq_nil_or_concat members
    · exact absurd member List.not_mem_nil
    have last_within : last.stop ≤ width.toNat := by
      have reached := laid.whole.1.2
      rwa [List.concat_eq_append, List.getLast?_concat] at reached
    rw [List.concat_eq_append] at member
    obtain earlier | here := List.mem_append.1 member
    · have apart := laid.apart
      rw [List.concat_eq_append] at apart
      have before := (List.pairwise_append.1 apart).2.2 m earlier last List.mem_cons_self
      exact Nat.le_trans before (Nat.le_trans (ordered last) last_within)
    · obtain rfl := List.mem_singleton.1 here
      exact last_within
  · exact laid.apart.imp fun {m n} apart =>
      UInt64.le_iff_toNat_le.2 (Nat.le_trans (ordered m) apart)

theorem IsAlignment.dvd_of_le {m n : Nat} (left : IsAlignment m) (right : IsAlignment n)
    (ordered : m ≤ n) : m ∣ n := by
  obtain ⟨⟨k, rfl⟩, -⟩ := left
  obtain ⟨⟨l, rfl⟩, -⟩ := right
  exact Nat.pow_dvd_pow 2 ((Nat.pow_le_pow_iff_right (by decide)).1 ordered)

theorem IsAlignment.dvd_words {n : Nat} (alignment : IsAlignment n) : n ∣ 0x10000000000000000 := by
  obtain ⟨⟨k, rfl⟩, small⟩ := alignment
  have exponent : k ≤ 3 := (Nat.pow_le_pow_iff_right (by decide : 1 < 2)).1 small
  exact Nat.pow_dvd_pow 2 (Nat.le_trans exponent (by decide : 3 ≤ 64))

theorem align_dvd_alignAll {members : List StructMember} {m : StructMember} (member : m ∈ members) :
    m.type.align.toNat ∣ (alignAll members).toNat := by
  refine (align_isAlignment m.type).dvd_of_le (alignAll_isAlignment members) ?_
  induction members with
  | nil => exact absurd member List.not_mem_nil
  | cons first rest ih =>
    obtain ⟨name, offset, type⟩ := first
    rw [alignAll, Word.toNat_max]
    obtain rfl | later := List.mem_cons.1 member
    · exact Nat.le_max_left _ _
    · exact Nat.le_trans (ih later) (Nat.le_max_right _ _)

/-- As alignments divide the number of words, rounding up wraps like all else. -/
theorem roundUp_wraps {align : Word} (alignment : IsAlignment align.toNat) {offset : Word}
    {place : Nat} (begins : offset.toNat = place % 0x10000000000000000) :
    (roundUp offset align).toNat = raise align.toNat place % 0x10000000000000000 := by
  have rest : (offset % align).toNat = place % align.toNat := by
    rw [UInt64.toNat_mod, begins, Nat.mod_mod_of_dvd _ alignment.dvd_words]
  have part := Nat.mod_lt place alignment.positive
  rw [roundUp, raise]
  by_cases multiple : place % align.toNat = 0
  · have none_left : offset % align = 0 := UInt64.toNat_inj.1 (rest.trans multiple)
    rw [if_pos none_left, if_pos multiple, begins]
  · have some_left : offset % align ≠ 0 := fun zero => multiple (rest ▸ congrArg UInt64.toNat zero)
    have gap : (align - offset % align).toNat = align.toNat - place % align.toNat := by
      rw [UInt64.toNat_sub_of_le _ _ (UInt64.le_iff_toNat_le.2 (by omega)), rest]
    rw [if_neg some_left, if_neg multiple, UInt64.toNat_add, gap, begins]
    omega

theorem placeFrom_wraps {offset : Word} {place : Nat} {fields : List (String × DataType)}
    (begins : offset.toNat = place % 0x10000000000000000) :
    (placeFrom offset fields).2.toNat =
      naturalStop place (fields.map (·.2)) % 0x10000000000000000 := by
  induction fields generalizing offset place with
  | nil => exact begins
  | cons field rest ih =>
    obtain ⟨name, type⟩ := field
    have start := roundUp_wraps (align_isAlignment type) begins
    have stop : (roundUp offset type.align + type.width).toNat =
        (raise type.align.toNat place + type.width.toNat) % 0x10000000000000000 := by
      rw [UInt64.toNat_add, start]
      omega
    exact ih stop

/-- Members that all end within a bound their alignments divide never wrap on the way. -/
theorem naturalStop_le_of_within {bound : Nat} (small : bound < 0x10000000000000000)
    {offset : Word} {fields : List (String × DataType)} (begins : offset.toNat ≤ bound)
    (aligned : ∀ f ∈ fields, f.2.align.toNat ∣ bound)
    (within : ∀ m ∈ (placeFrom offset fields).1, m.stop ≤ bound) :
    naturalStop offset.toNat (fields.map (·.2)) ≤ bound := by
  induction fields generalizing offset with
  | nil => exact begins
  | cons field rest ih =>
    obtain ⟨name, type⟩ := field
    have positive := (align_isAlignment type).positive
    obtain ⟨first_aligned, rest_aligned⟩ := List.forall_mem_cons.1 aligned
    have raised : raise type.align.toNat offset.toNat ≤ bound :=
      (raise_least positive offset.toNat).2 ⟨first_aligned, begins⟩
    have start : (roundUp offset type.align).toNat = raise type.align.toNat offset.toNat :=
      roundUp_toNat positive (by omega)
    obtain ⟨first_within, rest_within⟩ := List.forall_mem_cons.1 within
    replace first_within : (roundUp offset type.align).toNat + type.width.toNat ≤ bound :=
      first_within
    have stop : (roundUp offset type.align + type.width).toNat =
        raise type.align.toNat offset.toNat + type.width.toNat := by
      rw [UInt64.toNat_add, Nat.mod_eq_of_lt (by omega), start]
    have rest_stop := ih (by omega) rest_aligned rest_within
    rw [stop] at rest_stop
    exact rest_stop

theorem fields_types (offset : Word) (fields : List (String × DataType)) :
    fields.map (·.2) = (placeFrom offset fields).1.map (·.type) := by
  conv_lhs => rw [← placeFrom_fields offset fields]
  simp

section LaidOut

variable {name tag : Option String} {fields : List (String × DataType)}
  {members : List StructMember} {width : Word}

theorem laidOut_width (laid : laidOut tag fields = .record name members width) :
    width.toNat = naturalWidth (members.map (·.type)) % 0x10000000000000000 := by
  obtain ⟨-, rfl, rfl⟩ := DataType.record.inj laid
  have stop : (placeFrom 0 fields).2.toNat =
      naturalStop 0 (fields.map (·.2)) % 0x10000000000000000 :=
    placeFrom_wraps (Nat.zero_mod _).symm
  rw [fields_types 0 fields] at stop
  rw [roundUp_wraps (alignAll_isAlignment _) stop, alignAll_eq_largest]
  rfl

theorem laidOut_enclosed_iff (laid : laidOut tag fields = .record name members width) :
    Enclosed members width ↔ naturalWidth (members.map (·.type)) < 0x10000000000000000 := by
  constructor
  · intro enclosed
    have wraps := laidOut_width laid
    obtain ⟨-, rfl, -⟩ := DataType.record.inj laid
    have alignment := alignAll_isAlignment (placeFrom 0 fields).1
    -- The width is a multiple of all alignments, wrapped or not.
    have multiple : (alignAll (placeFrom 0 fields).1).toNat ∣ width.toNat := by
      rw [wraps, naturalWidth, ← alignAll_eq_largest]
      exact (Nat.dvd_mod_iff alignment.dvd_words).2 (raise_least alignment.positive _).1.1
    have aligned : ∀ f ∈ fields, f.2.align.toNat ∣ width.toNat := by
      intro f field
      rw [← placeFrom_fields 0 fields] at field
      obtain ⟨m, member, rfl⟩ := List.mem_map.1 field
      exact Nat.dvd_trans (align_dvd_alignAll member) multiple
    have stop := naturalStop_le_of_within width.toNat_lt (Nat.zero_le _) aligned enclosed.within
    rw [fields_types 0 fields] at stop
    rw [naturalWidth, ← alignAll_eq_largest]
    have least := (raise_least alignment.positive _).2 ⟨multiple, stop⟩
    exact Nat.lt_of_le_of_lt least width.toNat_lt
  · intro fits
    obtain ⟨_, _, made, -, natural⟩ := laidOut_natural tag fields
    obtain ⟨-, rfl, rfl⟩ := DataType.record.inj (laid.symm.trans made)
    exact (natural fits).enclosed

end LaidOut

/-- The structures in a type are as wide as natural alignment makes them, less what wraps, and hold
their members just where nothing does. -/
def SizedThroughout (type : DataType) : Prop :=
  ∀ tag members width, PartOf (.record tag members width) type →
    width.toNat = naturalWidth (members.map (·.type)) % 0x10000000000000000 ∧
      (Enclosed members width ↔ naturalWidth (members.map (·.type)) < 0x10000000000000000)

end DataType

open DataType

variable {source : List CToken}

theorem Declared.of_record {name : Option String} {members : List StructMember} {width : Word}
    (declared : Declared source (.record name members width)) :
    ∃ fields, laidOut name fields = .record name members width ∧
      ∀ m ∈ members, Declared source m.type := by
  generalize made : DataType.record name members width = type at declared
  cases declared with
  | @record fields body tag stands order all =>
    obtain ⟨rfl, rfl, rfl⟩ := DataType.record.inj made
    refine ⟨fields, rfl, fun m member => ?_⟩
    have field : (m.name, m.type) ∈ fields := by
      rw [← placeFrom_fields 0 fields]
      exact List.mem_map_of_mem member
    exact all _ field
  | _ => cases made

theorem Declared.of_part {part type : DataType} (within : PartOf part type)
    (declared : Declared source type) : Declared source part := by
  induction within with
  | whole => exact declared
  | target _ _ ih => cases declared with | pointer target _ => exact ih target
  | element _ _ ih => cases declared with | array element _ => exact ih element
  | member among _ name width ih =>
    obtain ⟨_, _, all⟩ := declared.of_record
    exact ih (all _ among)
  | result _ _ _ ih => cases declared with | function result _ _ => exact ih result
  | parameter among _ _ _ ih => cases declared with | function _ all _ => exact ih (all _ among)

theorem Declared.sized {type : DataType} (declared : Declared source type) :
    SizedThroughout type := by
  intro tag members width part
  obtain ⟨fields, laid, -⟩ := (declared.of_part part).of_record
  exact ⟨laidOut_width laid, laidOut_enclosed_iff laid⟩

namespace DeclarationContext

theorem refused_parse {α : Type} {x : Reading α}
    (refuses : ∀ r, WellNamed r.tokens → ∀ e, x.run r = .error e →
      ∃ what, e = .parse what)
    {context : DeclarationContext} {text : String} {e : AtlasError}
    (refused : DeclarationReader.start text context >>= x.run' = .error e) :
    ∃ what, e = .parse what := by
  rw [DeclarationReader.start] at refused
  cases lexed : CToken.lex text with
  | error e' =>
    rw [lexed] at refused
    obtain rfl := Except.error.inj refused
    exact CToken.lexFrom_refuses lexed
  | ok placed =>
    rw [lexed] at refused
    replace refused : Prod.fst <$> x.run ⟨placed, text.utf8ByteSize, context, []⟩ = .error e :=
      refused
    cases run : x.run ⟨placed, text.utf8ByteSize, context, []⟩ with
    | ok reached => rw [run] at refused; cases refused
    | error e' =>
      rw [run] at refused
      obtain rfl := Except.error.inj refused
      have read := (CToken.lex_eq_ok_iff text _).1 ⟨placed, lexed, rfl⟩
      exact refuses ⟨placed, text.utf8ByteSize, context, []⟩
        (fun w member => CToken.read?_words read member) e' run

/-- The first structure is as wide as a word can say, and the second one wraps. -/
def hugeText : String :=
  "struct Snug \x7b char a[0x7fffffffffffffff], b[0x7fffffffffffffff], c; \x7d snug[4];" ++
    "struct Wide \x7b char a[0x7fffffffffffffff], b[0x7fffffffffffffff]; int c; \x7d *wide;"

def hugePair : List StructMember :=
  [.mk "a" 0 (.array (.integer 1 true) 0x7fffffffffffffff),
    .mk "b" 0x7fffffffffffffff (.array (.integer 1 true) 0x7fffffffffffffff)]

def snugMembers : List StructMember := hugePair ++ [.mk "c" 0xfffffffffffffffe (.integer 1 true)]

def wideMembers : List StructMember := hugePair ++ [.mk "c" 0 (.integer 4 true)]

def wideText : String :=
  "struct S \x7b char a[0x7fffffffffffffff]; char b[0x7fffffffffffffff]; int c; \x7d;"

end DeclarationContext

end BinaryAtlas
