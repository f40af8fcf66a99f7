import BinaryAtlas.Space.Strings
import Mathlib.Data.Nat.Find

/-!
The longest runs of text in some bytes. A scan shows each of them that is long enough, in address
order and cut to the length that counts.
-/

set_option autoImplicit false

namespace BinaryAtlas

namespace StringScan

/-- So many places in a row, `step` apart, where something holds, and none before or behind. -/
structure IsRun (holds : Nat → Prop) (step first count : Nat) : Prop where
  nonempty : 0 < count
  inside : ∀ j < count, holds (first + j * step)
  starts : first < step ∨ ¬ holds (first - step)
  ends : ¬ holds (first + count * step)

namespace IsRun

variable {holds other : Nat → Prop} {step first count n : Nat}

theorem length_le (run : IsRun holds step first count)
    (more : ∀ j < n, holds (first + j * step)) : n ≤ count :=
  Nat.le_of_not_lt fun longer => run.ends (more count longer)

theorem unique (run : IsRun holds step first count) (same : IsRun holds step first n) :
    n = count :=
  Nat.le_antisymm (run.length_le same.inside) (same.length_le run.inside)

theorem exists_of_start (here : holds first) (starts : first < step ∨ ¬ holds (first - step))
    (bounded : ∃ j, ¬ holds (first + j * step)) : ∃ n, IsRun holds step first n := by
  classical
  have later : 0 < Nat.find bounded := by
    rw [Nat.find_pos, Nat.zero_mul, Nat.add_zero]
    exact not_not_intro here
  exact ⟨Nat.find bounded, later, fun j early => not_not.1 (Nat.find_min bounded early), starts,
    Nat.find_spec bounded⟩

/-- A run that is seen at its beginning and as far as `limit` is a run there as well, of the same
length or of at least that many. -/
theorem carry {place limit : Nat} (some_ : 0 < limit)
    (same : ∀ j < limit, other (place + j * step) ↔ holds (first + j * step))
    (starts : place < step ∨ ¬ other (place - step))
    (bounded : ∃ j, ¬ other (place + j * step)) (run : IsRun holds step first count) :
    ∃ n, IsRun other step place n ∧ (n = count ∨ limit ≤ n ∧ limit ≤ count) := by
  have here : other (place + 0 * step) := (same 0 some_).2 (run.inside 0 run.nonempty)
  rw [Nat.zero_mul, Nat.add_zero] at here
  obtain ⟨n, found⟩ := exists_of_start here starts bounded
  refine ⟨n, found, ?_⟩
  rcases Nat.lt_trichotomy n count with shorter | equal | longer
  · have : limit ≤ n := Nat.le_of_not_lt fun seen =>
      found.ends ((same n seen).2 (run.inside n shorter))
    omega
  · exact .inl equal
  · have : limit ≤ count := Nat.le_of_not_lt fun seen =>
      run.ends ((same count seen).1 (found.inside count longer))
    omega

/-- Places that are told one by one, and stand `step` apart from `shift` on. -/
theorem rescale {shift : Nat} (same : ∀ k, holds k ↔ other (shift + k * step))
    (below : shift < step) : IsRun holds 1 first n ↔ IsRun other step (shift + first * step) n := by
  have place (k : Nat) : other (shift + first * step + k * step) ↔ holds (first + k * 1) := by
    rw [Nat.mul_one, same, Nat.add_mul, Nat.add_assoc]
  have starts : (first < 1 ∨ ¬ holds (first - 1)) ↔
      (shift + first * step < step ∨ ¬ other (shift + first * step - step)) := by
    cases first with
    | zero => simp [below]
    | succ first =>
      have back : shift + (first + 1) * step - step = shift + first * step := by
        rw [Nat.succ_mul, ← Nat.add_assoc, Nat.add_sub_cancel]
      have beyond : ¬ shift + (first + 1) * step < step := by
        rw [Nat.succ_mul]
        omega
      simp [back, beyond, same]
  constructor
  · intro run
    exact ⟨run.nonempty, fun j early => (place j).2 (run.inside j early), starts.1 run.starts,
      fun goes => run.ends ((place n).1 goes)⟩
  · intro run
    exact ⟨run.nonempty, fun j early => (place j).1 (run.inside j early), starts.2 run.starts,
      fun goes => run.ends ((place n).2 goes)⟩

end IsRun

section Flags

variable {flags : List Bool} {begun run first n : Nat}

theorem IsRun.eq_of_inside (inside : ∀ j < run, flags[begun + j]? = some true)
    (ends : flags[begun + run]? ≠ some true)
    (found : IsRun (fun i => flags[i]? = some true) 1 first n) (behind : begun ≤ first)
    (within : first < begun + run) : first = begun ∧ n = run := by
  have begins : first = begun := by
    rcases found.starts with early | apart
    · omega
    · refine Nat.le_antisymm (Nat.le_of_not_lt fun later => apart ?_) behind
      have before := inside (first - 1 - begun) (by omega)
      rwa [show begun + (first - 1 - begun) = first - 1 by omega] at before
  subst begins
  refine ⟨rfl, Nat.le_antisymm (Nat.le_of_not_lt fun longer => ends ?_)
    (found.length_le fun j early => ?_)⟩
  · simpa using found.inside run longer
  · simpa using inside j early

/-- Where no flag goes on, a run under way is over. It is the only one that begins before. -/
theorem mem_closed (inside : ∀ j < run, flags[begun + j]? = some true)
    (starts : begun < 1 ∨ flags[begun - 1]? ≠ some true) (ends : flags[begun + run]? ≠ some true) :
    (first, n) ∈ (if run = 0 then [] else [(begun + run - run, run)]) ↔
      IsRun (fun i => flags[i]? = some true) 1 first n ∧ begun ≤ first ∧ first < begun + run := by
  rw [Nat.add_sub_cancel]
  split
  · exact iff_of_false List.not_mem_nil (by omega)
  · rename_i some_
    rw [List.mem_singleton, Prod.mk.injEq]
    constructor
    · rintro ⟨rfl, rfl⟩
      exact ⟨⟨by omega, by simpa using inside, starts, by simpa using ends⟩, by omega, by omega⟩
    · exact fun ⟨found, behind, within⟩ => found.eq_of_inside inside ends behind within

/-- What is still told of the flags, where a run that began at `begun` is under way. -/
theorem mem_runsFrom (begun run : Nat) (rest : List Bool)
    (rest_eq : flags.drop (begun + run) = rest)
    (inside : ∀ j < run, flags[begun + j]? = some true)
    (starts : begun < 1 ∨ flags[begun - 1]? ≠ some true) :
    (first, n) ∈ runsFrom (begun + run) run rest ↔
      IsRun (fun i => flags[i]? = some true) 1 first n ∧ begun ≤ first := by
  induction rest generalizing begun run with
  | nil =>
    have short : flags.length ≤ begun + run := List.drop_eq_nil_iff.1 rest_eq
    rw [runsFrom, mem_closed inside starts (by simp [List.getElem?_eq_none short])]
    refine and_congr_right fun found => and_iff_left_of_imp fun _ => ?_
    have := (List.getElem?_eq_some_iff.1 (found.inside 0 found.nonempty)).1
    omega
  | cons flag rest ih =>
    have here : flags[begun + run]? = some flag := by
      rw [← Nat.add_zero (begun + run), ← List.getElem?_drop, rest_eq, List.getElem?_cons_zero]
    have next : flags.drop (begun + run + 1) = rest := by
      rw [← List.drop_drop, rest_eq, List.drop_one, List.tail_cons]
    cases flag with
    | true =>
      refine ih begun (run + 1) next (fun j early => ?_) starts
      rcases Nat.lt_succ_iff_lt_or_eq.1 early with early | rfl
      · exact inside j early
      · exact here
    | false =>
      have ends : flags[begun + run]? ≠ some true := by simp [here]
      have later := ih (begun + run + 1) 0 next (fun _ none => nomatch none)
        (.inr ends)
      rw [Nat.add_zero] at later
      rw [runsFrom, List.mem_append, mem_closed inside starts ends, later, ← and_or_left]
      refine and_congr_right fun found => ⟨by omega, fun behind => ?_⟩
      have apart : first ≠ begun + run := by
        rintro rfl
        exact ends (by simpa using found.inside 0 found.nonempty)
      omega

theorem mem_runs : (first, n) ∈ runs flags ↔ IsRun (fun i => flags[i]? = some true) 1 first n :=
  (mem_runsFrom 0 0 flags rfl (fun _ none => nomatch none)
    (.inl Nat.one_pos)).trans (and_iff_left (Nat.zero_le _))

end Flags

/-- A character of text stands at a place. -/
def TextAt (bytes : List UInt8) : StringKind → Nat → Prop
  | .ascii, i => ∃ b, bytes[i]? = some b ∧ isText b = true
  | .utf16, i => ∃ low high, bytes[i]? = some low ∧ bytes[i + 1]? = some high ∧
      isTextUnit low high = true
  | .utf32, _ => False

/-- A string begins at a place: a run of text that is long enough. Of its characters no more than
`most` count, which are `count`. -/
def Stands (bytes : List UInt8) (least most : Nat) (kind : StringKind) (i count : Nat) : Prop :=
  ∃ n, IsRun (TextAt bytes kind) kind.unitSize i n ∧ least ≤ n ∧ min n most = count

section Bytes

variable {bytes : List UInt8} {base : Word} {least most i count : Nat} {kind : StringKind}

theorem TextAt.within (text : TextAt bytes kind i) : i + kind.unitSize ≤ bytes.length := by
  cases kind with
  | ascii =>
    obtain ⟨b, held, -⟩ := text
    exact (List.getElem?_eq_some_iff.1 held).1
  | utf16 =>
    obtain ⟨low, high, -, held, -⟩ := text
    exact (List.getElem?_eq_some_iff.1 held).1
  | utf32 => exact text.elim

theorem exists_not_textAt (bytes : List UInt8) (kind : StringKind) (i : Nat) :
    ∃ j, ¬ TextAt bytes kind (i + j * kind.unitSize) := by
  refine ⟨bytes.length, fun text => ?_⟩
  have within := text.within
  cases kind <;> simp only [StringKind.unitSize] at within <;> omega

theorem Stands.within (stands : Stands bytes least most kind i count) :
    i + count * kind.unitSize ≤ bytes.length := by
  obtain ⟨n, run, -, rfl⟩ := stands
  have last := (run.inside (n - 1) (Nat.sub_lt run.nonempty Nat.one_pos)).within
  have := run.nonempty
  cases kind <;> simp only [StringKind.unitSize] at last ⊢ <;> omega

theorem Stands.begins (stands : Stands bytes least most kind i count) : i < bytes.length := by
  obtain ⟨n, run, -, -⟩ := stands
  have first := (run.inside 0 run.nonempty).within
  cases kind <;> simp only [StringKind.unitSize] at first <;> omega

theorem Stands.unique {c : Nat} (stands : Stands bytes least most kind i count)
    (same : Stands bytes least most kind i c) : c = count := by
  obtain ⟨n, run, -, rfl⟩ := stands
  obtain ⟨m, other, -, rfl⟩ := same
  rw [run.unique other]

theorem getElem?_unitFlags (bytes : List UInt8) (i : Nat) :
    (unitFlags bytes)[i]? = some true ↔ TextAt bytes .utf16 (i * 2) := by
  fun_induction unitFlags bytes generalizing i with
  | case1 low high rest ih =>
    cases i with
    | zero => simp [TextAt]
    | succ i => simpa [TextAt, Nat.succ_mul] using ih i
  | case2 bytes short =>
    refine iff_of_false (by simp) fun text => ?_
    match bytes, text.within with
    | [], within => simp [StringKind.unitSize] at within
    | [_], within => simp [StringKind.unitSize] at within
    | _ :: _ :: _, _ => exact short _ _ _ rfl

/-- The string that begins so many bytes behind `base`, and has so many characters. -/
def reference (base : Word) (kind : StringKind) (i count : Nat) : StringReference :=
  ⟨kind, base + .ofNat i, .ofNat (count * kind.unitSize)⟩

theorem mem_ascii {s : StringReference} : s ∈ ascii bytes base least most ↔
    ∃ i count, Stands bytes least most .ascii i count ∧ s = reference base .ascii i count := by
  have run {i n : Nat} : (i, n) ∈ runs (bytes.map isText) ↔ IsRun (TextAt bytes .ascii) 1 i n := by
    have same (k : Nat) : (bytes.map isText)[k]? = some true ↔ TextAt bytes .ascii (0 + k * 1) := by
      simp [TextAt]
    simpa using mem_runs.trans (IsRun.rescale same Nat.one_pos)
  simp only [ascii, List.mem_map, List.mem_filter, decide_eq_true_eq]
  constructor
  · rintro ⟨⟨i, n⟩, ⟨member, long⟩, rfl⟩
    exact ⟨i, min n most, ⟨n, run.1 member, long, rfl⟩, by simp [reference, StringKind.unitSize]⟩
  · rintro ⟨i, count, ⟨n, found, long, rfl⟩, rfl⟩
    exact ⟨(i, n), ⟨run.2 found, long⟩, by simp [reference, StringKind.unitSize]⟩

theorem mem_utf16 {shift : Nat} (below : shift < 2) {s : StringReference} :
    s ∈ utf16 bytes base least most shift ↔ ∃ i count, Stands bytes least most .utf16 i count ∧
      i % 2 = shift ∧ s = reference base .utf16 i count := by
  have run {i n : Nat} : (i, n) ∈ runs (unitFlags (bytes.drop shift)) ↔
      IsRun (TextAt bytes .utf16) 2 (shift + i * 2) n := by
    refine mem_runs.trans (IsRun.rescale (fun k => (getElem?_unitFlags _ k).trans ?_) below)
    simp only [TextAt, List.getElem?_drop, Nat.add_assoc]
  simp only [utf16, List.mem_map, List.mem_filter, decide_eq_true_eq]
  constructor
  · rintro ⟨⟨i, n⟩, ⟨member, long⟩, rfl⟩
    exact ⟨shift + i * 2, min n most, ⟨n, run.1 member, long, rfl⟩, by omega, rfl⟩
  · rintro ⟨i, count, ⟨n, found, long, rfl⟩, aligned, rfl⟩
    have place : shift + i / 2 * 2 = i := by omega
    exact ⟨(i / 2, n), ⟨run.2 (place.symm ▸ found), long⟩,
      by simp [reference, StringKind.unitSize, place]⟩

/-- The strings of all kinds, before they are put in order. -/
def found (bytes : List UInt8) (base : Word) (least most : Nat) : List StringReference :=
  ascii bytes base least most ++ utf16 bytes base least most 0 ++ utf16 bytes base least most 1

theorem mem_found {s : StringReference} : s ∈ found bytes base least most ↔
    ∃ i count, Stands bytes least most s.kind i count ∧ s = reference base s.kind i count := by
  rw [found, List.mem_append, List.mem_append, mem_ascii, mem_utf16 Nat.two_pos,
    mem_utf16 Nat.one_lt_two]
  constructor
  · rintro ((⟨i, count, stands, rfl⟩ | ⟨i, count, stands, -, rfl⟩) | ⟨i, count, stands, -, rfl⟩) <;>
      exact ⟨i, count, stands, rfl⟩
  · rintro ⟨i, count, stands, made⟩
    cases kind : s.kind with
    | ascii =>
      rw [kind] at stands made
      exact .inl (.inl ⟨i, count, stands, made⟩)
    | utf16 =>
      rw [kind] at stands made
      rcases Nat.mod_two_eq_zero_or_one i with even | odd
      · exact .inl (.inr ⟨i, count, stands, even, made⟩)
      · exact .inr ⟨i, count, stands, odd, made⟩
    | utf32 =>
      rw [kind] at stands
      obtain ⟨n, run, -⟩ := stands
      exact (run.inside 0 run.nonempty).elim

end Bytes

section Order

variable {s t : StringReference} {l : List StringReference}

theorem inOrder_iff : inOrder s t = true ↔
    s.start.toNat < t.start.toNat ∨
      s.start.toNat = t.start.toNat ∧ s.length.toNat ≤ t.length.toNat := by
  simp [inOrder, UInt64.lt_iff_toNat_lt, UInt64.le_iff_toNat_le, ← UInt64.toNat_inj]

theorem inOrder_trans (s t u : StringReference) (first : inOrder s t = true)
    (second : inOrder t u = true) : inOrder s u = true := by
  rw [inOrder_iff] at *
  omega

theorem inOrder_total (s t : StringReference) : (inOrder s t || inOrder t s) = true := by
  rw [Bool.or_eq_true, inOrder_iff, inOrder_iff]
  omega

theorem mem_of_mem_firstOfEach (member : s ∈ firstOfEach l) : s ∈ l := by
  fun_induction firstOfEach l with
  | case1 s' t rest same ih => 
    rcases List.mem_cons.1 (ih member) with rfl | later
    · exact List.mem_cons_self
    · exact List.mem_cons_of_mem _ (List.mem_cons_of_mem _ later)
  | case2 s' t rest other ih =>
    rcases List.mem_cons.1 member with rfl | later
    · exact List.mem_cons_self
    · exact List.mem_cons_of_mem _ (ih later)
  | case3 => exact member

theorem exists_mem_firstOfEach (member : t ∈ l) : ∃ s ∈ firstOfEach l, s.start = t.start := by
  fun_induction firstOfEach l generalizing t with
  | case1 s t' rest same ih =>
    rcases List.mem_cons.1 member with rfl | later
    · exact ih List.mem_cons_self
    · rcases List.mem_cons.1 later with rfl | later
      · obtain ⟨u, found, begins⟩ := ih (t := s) List.mem_cons_self
        exact ⟨u, found, begins.trans same⟩
      · exact ih (List.mem_cons_of_mem _ later)
  | case2 s t' rest other ih =>
    rcases List.mem_cons.1 member with rfl | later
    · exact ⟨_, List.mem_cons_self, rfl⟩
    · obtain ⟨u, found, same⟩ := ih later
      exact ⟨u, List.mem_cons_of_mem _ found, same⟩
  | case3 => exact ⟨t, member, rfl⟩

theorem firstOfEach_ascending (sorted : l.Pairwise (inOrder · ·)) :
    (firstOfEach l).Pairwise (fun s t => s.start < t.start) := by
  fun_induction firstOfEach l with
  | case1 s t rest same ih => exact ih (sorted.sublist (.cons_cons _ (.cons _ (.refl _))))
  | case2 s t rest other ih =>
    obtain ⟨behind, sorted⟩ := List.pairwise_cons.1 sorted
    refine List.pairwise_cons.2 ⟨fun u member => ?_, ih sorted⟩
    have first := inOrder_iff.1 (behind t List.mem_cons_self)
    rw [← UInt64.toNat_inj] at other
    rw [UInt64.lt_iff_toNat_lt]
    rcases List.mem_cons.1 (mem_of_mem_firstOfEach member) with rfl | later
    · omega
    · have := inOrder_iff.1 ((List.pairwise_cons.1 sorted).1 u later)
      omega
  | case3 l short =>
    match l, short with
    | [], _ => exact .nil
    | [s], _ => exact List.pairwise_singleton _ _
    | _ :: _ :: _, short => exact (short _ _ _ rfl).elim

theorem firstOfEach_of_ascending (ascending : l.Pairwise (fun s t => s.start < t.start)) :
    firstOfEach l = l := by
  fun_induction firstOfEach l with
  | case1 s t rest same ih =>
    have before := (List.pairwise_cons.1 ascending).1 t List.mem_cons_self
    exact absurd same (Std.ne_of_lt before)
  | case2 s t rest other ih => rw [ih (List.pairwise_cons.1 ascending).2]
  | case3 => rfl

/-- Of those at one address the first in the order is kept. -/
theorem inOrder_of_mem_firstOfEach (sorted : l.Pairwise (inOrder · ·)) (kept : s ∈ firstOfEach l)
    (member : t ∈ l) (same : s.start = t.start) : inOrder s t = true := by
  have refl (s : StringReference) : inOrder s s = true := by simpa using inOrder_total s s
  have ascending := firstOfEach_ascending sorted
  fun_induction firstOfEach l generalizing t with
  | case1 first next rest begins ih =>
    have sorted' := sorted.sublist (.cons_cons first (.cons next (.refl rest)))
    have ih {t : StringReference} (member : t ∈ first :: rest) (same : s.start = t.start) :
        inOrder s t = true := ih sorted' kept member same ascending
    rcases List.mem_cons.1 member with rfl | later
    · exact ih List.mem_cons_self same
    rcases List.mem_cons.1 later with rfl | later
    · exact inOrder_trans _ _ _ (ih List.mem_cons_self (same.trans begins.symm))
        ((List.pairwise_cons.1 sorted).1 t List.mem_cons_self)
    · exact ih (List.mem_cons_of_mem _ later) same
  | case2 first next rest other ih =>
    obtain ⟨behind, sorted⟩ := List.pairwise_cons.1 sorted
    obtain ⟨before, ascending⟩ := List.pairwise_cons.1 ascending
    rcases List.mem_cons.1 kept with rfl | kept' <;> rcases List.mem_cons.1 member with rfl | later
    · exact refl _
    · exact behind t later
    · exact absurd same.symm (Std.ne_of_lt (before s kept'))
    · exact ih sorted kept' later same ascending
  | case3 l short =>
    match l, short with
    | [_], _ =>
      obtain rfl := List.mem_singleton.1 kept
      obtain rfl := List.mem_singleton.1 member
      exact refl _
    | _ :: _ :: _, short => exact (short _ _ _ rfl).elim

end Order

section Scan

variable {bytes : List UInt8} {base : Word} {least most i count : Nat} {kind : StringKind}
  {s : StringReference}

theorem scan_ascending (bytes : List UInt8) (base : Word) (least most : Nat) :
    (scan bytes base least most).Pairwise (fun s t => s.start < t.start) :=
  firstOfEach_ascending (List.pairwise_mergeSort inOrder_trans inOrder_total _)

/-- What is found in order at different places is what a scan shows. -/
theorem scan_of_sorted {strings : List StringReference}
    (found_eq : found bytes base (max least 1) (max most (max least 1)) = strings)
    (sorted : strings.Pairwise (inOrder · ·)) :
    scan bytes base least most = firstOfEach strings := by
  show firstOfEach ((found bytes base _ _).mergeSort inOrder) = firstOfEach strings
  rw [found_eq, List.mergeSort_of_pairwise sorted]

theorem scan_of_ascending {strings : List StringReference}
    (found_eq : found bytes base (max least 1) (max most (max least 1)) = strings)
    (ascending : strings.Pairwise (fun s t => s.start < t.start)) :
    scan bytes base least most = strings := by
  have sorted : strings.Pairwise (inOrder · ·) := ascending.imp fun before =>
    inOrder_iff.2 (.inl (UInt64.lt_iff_toNat_lt.1 before))
  rw [scan_of_sorted found_eq sorted, firstOfEach_of_ascending ascending]

theorem Stands.toNat_start (stands : Stands bytes least most kind i count)
    (room : base.toNat + bytes.length < 0x10000000000000000) :
    (reference base kind i count).start.toNat = base.toNat + i := by
  have := stands.within
  exact Word.toNat_add_ofNat (by omega)

theorem Stands.toNat_length (stands : Stands bytes least most kind i count)
    (room : base.toNat + bytes.length < 0x10000000000000000) :
    (reference base kind i count).length.toNat = count * kind.unitSize := by
  have := stands.within
  exact UInt64.toNat_ofNat_of_lt' (show count * kind.unitSize < 0x10000000000000000 by omega)

/-- Where both a character of one byte and one of two bytes stand, the next byte is no text. -/
theorem Stands.single {c : Nat} (stands : Stands bytes least most .ascii i count)
    (wide : Stands bytes least most .utf16 i c) : least ≤ 1 ∧ count ≤ 1 := by
  obtain ⟨n, run, long, rfl⟩ := stands
  obtain ⟨m, other, -, -⟩ := wide
  have one : n ≤ 1 := by
    refine Nat.le_of_not_lt fun more => ?_
    obtain ⟨b, held, text⟩ := run.inside 1 more
    obtain ⟨low, high, -, held', unit⟩ := other.inside 0 other.nonempty
    have same : b = high := by simpa [held, StringKind.unitSize] using held.symm.trans held'
    have zero : high = 0 := by simp [isTextUnit] at unit; exact unit.1
    rw [same, zero] at text
    exact absurd text (by decide)
  omega

/-- The string that a scan shows at a place: where one of each kind stands, which is for want of a
second character of one byte, the one of one byte a character. -/
def Shows (bytes : List UInt8) (least most : Nat) (kind : StringKind) (i count : Nat) : Prop :=
  Stands bytes least most kind i count ∧
    (kind = .utf16 → ∀ c, ¬ Stands bytes least most .ascii i c)

theorem Shows.unique {kind' : StringKind} {c : Nat} (shows_ : Shows bytes least most kind i count)
    (other : Shows bytes least most kind' i c) : kind' = kind ∧ c = count := by
  obtain ⟨stands, alone⟩ := shows_
  obtain ⟨stands', alone'⟩ := other
  have same : kind' = kind := by
    match kind, kind', stands, stands' with
    | .ascii, .ascii, _, _ | .utf16, .utf16, _, _ => rfl
    | .ascii, .utf16, stands, _ => exact (alone' rfl _ stands).elim
    | .utf16, .ascii, _, stands' => exact (alone rfl _ stands').elim
    | .utf32, _, ⟨n, run, _⟩, _ | _, .utf32, _, ⟨n, run, _⟩ =>
      exact (run.inside 0 run.nonempty).elim
  subst same
  exact ⟨rfl, stands.unique stands'⟩

theorem shows_of_mem (room : base.toNat + bytes.length < 0x10000000000000000) (some_ : 0 < least)
    (enough : 0 < most)
    (member : s ∈ firstOfEach ((found bytes base least most).mergeSort inOrder)) :
    ∃ i count, Shows bytes least most s.kind i count ∧ s = reference base s.kind i count := by
  have sorted : ((found bytes base least most).mergeSort inOrder).Pairwise (inOrder · ·) :=
    List.pairwise_mergeSort inOrder_trans inOrder_total _
  obtain ⟨i, count, stands, made⟩ :=
    mem_found.1 (List.mem_mergeSort.1 (mem_of_mem_firstOfEach member))
  refine ⟨i, count, ⟨stands, fun wide c narrow => ?_⟩, made⟩
  have rival : reference base .ascii i c ∈ found bytes base least most :=
    mem_found.2 ⟨i, c, narrow, rfl⟩
  -- The two begin at one place, and that of two bytes a character is longer.
  have first := inOrder_iff.1 (inOrder_of_mem_firstOfEach sorted member (List.mem_mergeSort.2 rival)
    (by rw [made]; rfl))
  have length := stands.toNat_length room
  rw [wide] at stands made length
  rw [made, narrow.toNat_start room, stands.toNat_start room, narrow.toNat_length room, length]
    at first
  have := (narrow.single stands).2
  obtain ⟨n, -, long, rfl⟩ := stands
  simp only [StringKind.unitSize] at first
  omega

theorem mem_scan (room : base.toNat + bytes.length < 0x10000000000000000) :
    s ∈ scan bytes base least most ↔ ∃ i count,
      Shows bytes (max least 1) (max most (max least 1)) s.kind i count ∧
        s = reference base s.kind i count := by
  have some_ : 0 < max least 1 := by omega
  have enough : 0 < max most (max least 1) := by omega
  show s ∈ firstOfEach ((found bytes base _ _).mergeSort inOrder) ↔ _
  generalize max most (max least 1) = most at *
  generalize max least 1 = least at *
  refine ⟨shows_of_mem room some_ enough, fun ⟨i, count, shows_, made⟩ => ?_⟩
  have member : s ∈ (found bytes base least most).mergeSort inOrder :=
    List.mem_mergeSort.2 (mem_found.2 ⟨i, count, shows_.1, made⟩)
  obtain ⟨t, kept, same⟩ := exists_mem_firstOfEach member
  obtain ⟨i', count', shows', made'⟩ := shows_of_mem room some_ enough kept
  have place : i' = i := by
    rw [made', made, ← UInt64.toNat_inj, shows'.1.toNat_start room, shows_.1.toNat_start room]
      at same
    omega
  subst place
  obtain ⟨kind, count_eq⟩ := shows_.unique shows'
  rwa [made, ← kind, ← count_eq, ← made']

end Scan

section Exactness

variable {bytes : List UInt8} {base : Word} {least most i count : Nat} {kind : StringKind}
  {s : StringReference}

/-- The unit of two bytes at a place, the low byte first. -/
def unitAt? (bytes : List UInt8) (i : Nat) : Option Nat := do
  let low ← bytes[i]?
  let high ← bytes[i + 1]?
  some (low.toNat + 0x100 * high.toNat)

/-- A unit of text stands at a place: one below 0x80 which as a byte is text. -/
def TextUnitAt (bytes : List UInt8) (i : Nat) : Prop :=
  ∃ unit, unitAt? bytes i = some unit ∧ unit < 0x80 ∧ isText (.ofNat unit) = true

instance (bytes : List UInt8) (i : Nat) : Decidable (TextUnitAt bytes i) :=
  decidable_of_iff ((unitAt? bytes i).any (fun unit => unit < 0x80 && isText (.ofNat unit)) = true)
    (by simp [TextUnitAt, Option.any_eq_true])

instance (bytes : List UInt8) (i : Nat) : Decidable (TextAt bytes .ascii i) :=
  decidable_of_iff ((bytes[i]?).any isText = true) (by simp [TextAt, Option.any_eq_true])

instance (holds : Nat → Prop) [DecidablePred holds] (step first count : Nat) :
    Decidable (IsRun holds step first count) :=
  decidable_of_iff
    (0 < count ∧ (∀ j < count, holds (first + j * step)) ∧
      (first < step ∨ ¬ holds (first - step)) ∧ ¬ holds (first + count * step))
    ⟨fun parts => ⟨parts.1, parts.2.1, parts.2.2.1, parts.2.2.2⟩,
      fun run => ⟨run.nonempty, run.inside, run.starts, run.ends⟩⟩

theorem isTextUnit_iff {low high : UInt8} : isTextUnit low high = true ↔
    low.toNat + 0x100 * high.toNat < 0x80 ∧
      isText (.ofNat (low.toNat + 0x100 * high.toNat)) = true := by
  simp only [isTextUnit, Bool.and_eq_true, beq_iff_eq]
  constructor
  · rintro ⟨rfl, text⟩
    have plain : UInt8.ofNat (low.toNat + 0x100 * (0 : UInt8).toNat) = low := UInt8.ofNat_toNat
    refine ⟨?_, plain.symm ▸ text⟩
    simp only [isText, Bool.or_eq_true, Bool.and_eq_true, decide_eq_true_eq, beq_iff_eq,
      UInt8.lt_iff_toNat_lt, ← UInt8.toNat_inj] at text
    have : (0x7f : UInt8).toNat = 0x7f := rfl
    have : (9 : UInt8).toNat = 9 := rfl
    have : (0 : UInt8).toNat = 0 := rfl
    omega
  · rintro ⟨small, text⟩
    have zero : high = 0 := by
      rw [← UInt8.toNat_inj]
      show high.toNat = 0
      omega
    subst zero
    exact ⟨rfl, by simpa using text⟩

theorem textUnitAt_iff : TextUnitAt bytes i ↔ TextAt bytes .utf16 i := by
  constructor
  · rintro ⟨unit, held, small, text⟩
    obtain ⟨low, low_eq, held⟩ := Option.bind_eq_some_iff.1 held
    obtain ⟨high, high_eq, held⟩ := Option.bind_eq_some_iff.1 held
    obtain rfl := Option.some.inj held
    exact ⟨low, high, low_eq, high_eq, isTextUnit_iff.2 ⟨small, text⟩⟩
  · rintro ⟨low, high, low_eq, high_eq, text⟩
    exact ⟨_, by simp [unitAt?, low_eq, high_eq], isTextUnit_iff.1 text⟩

theorem Stands.eq_reference_iff (stands : Stands bytes least most kind i count)
    (room : base.toNat + bytes.length < 0x10000000000000000) :
    s = reference base kind i count ↔
      s.kind = kind ∧ s.start.toNat = base.toNat + i ∧ s.length.toNat = count * kind.unitSize := by
  rw [← stands.toNat_start room, ← stands.toNat_length room, UInt64.toNat_inj, UInt64.toNat_inj]
  obtain ⟨kind', start, length⟩ := s
  simp only [reference, StringReference.mk.injEq]

theorem mem_scan_iff (room : base.toNat + bytes.length < 0x10000000000000000) :
    s ∈ scan bytes base least most ↔ ∃ i count,
      Shows bytes (max least 1) (max most (max least 1)) s.kind i count ∧
        s.start.toNat = base.toNat + i ∧ s.length.toNat = count * s.kind.unitSize := by
  rw [mem_scan room]
  refine exists_congr fun i => exists_congr fun count => and_congr_right fun shows_ => ?_
  rw [shows_.1.eq_reference_iff room]
  exact and_iff_right rfl

/-- At a place where a string of one byte a character begins, one is shown. -/
theorem exists_mem_scan_ascii (room : base.toNat + bytes.length < 0x10000000000000000) :
    (∃ t ∈ scan bytes base least most, t.kind = .ascii ∧ t.start.toNat = base.toNat + i) ↔
      ∃ count, Stands bytes (max least 1) (max most (max least 1)) .ascii i count := by
  constructor
  · rintro ⟨t, member, kind, begins⟩
    obtain ⟨j, count, ⟨stands, -⟩, place, -⟩ := (mem_scan_iff room).1 member
    obtain rfl : j = i := by omega
    exact ⟨count, kind ▸ stands⟩
  · rintro ⟨count, stands⟩
    have shows_ : Shows bytes (max least 1) (max most (max least 1)) .ascii i count :=
      ⟨stands, by rintro ⟨⟩⟩
    exact ⟨reference base .ascii i count, (mem_scan room).2 ⟨i, count, shows_, rfl⟩, rfl,
      stands.toNat_start room⟩

/-- A scan shows the longest runs of text that are long enough, in address order and cut to the
length that counts: those of bytes, and those of units of two bytes, at odd and at even places.
Where both begin at one place, which takes strings of a single character, that of bytes is shown. -/
theorem scan_exact (bytes : List UInt8) (base : Word) (least most : Nat)
    (room : base.toNat + bytes.length < 0x10000000000000000) :
    let shortest := max least 1
    let longest := max most shortest
    let shown := scan bytes base least most
    shown.Pairwise (fun s t => s.start < t.start) ∧
      (∀ s ∈ shown, s.kind = .ascii ∨ s.kind = .utf16) ∧
      (∀ s, s.kind = .ascii → (s ∈ shown ↔ ∃ i n, IsRun (TextAt bytes .ascii) 1 i n ∧
        shortest ≤ n ∧ s.start.toNat = base.toNat + i ∧ s.length.toNat = min n longest)) ∧
      (∀ s, s.kind = .utf16 → (s ∈ shown ↔
        (∃ i n, IsRun (TextUnitAt bytes) 2 i n ∧
          shortest ≤ n ∧ s.start.toNat = base.toNat + i ∧ s.length.toNat = 2 * min n longest) ∧
        ∀ t ∈ shown, t.kind = .ascii → t.start ≠ s.start)) ∧
      ∀ i n, IsRun (TextUnitAt bytes) 2 i n → shortest ≤ n →
        ∀ t ∈ shown, t.kind = .ascii → t.start.toNat = base.toNat + i → shortest = 1 := by
  intro shortest longest shown
  have units : TextUnitAt bytes = TextAt bytes .utf16 := funext fun i => propext textUnitAt_iff
  rw [units]
  refine ⟨scan_ascending .., fun s member => ?_, fun s kind => ?_, fun s kind => ?_,
    fun i n run long t member kind begins => ?_⟩
  · obtain ⟨i, count, ⟨⟨n, run, -⟩, -⟩, -⟩ := (mem_scan_iff room).1 member
    cases kind : s.kind with
    | ascii => exact .inl rfl
    | utf16 => exact .inr rfl
    | utf32 => exact (kind ▸ run.inside 0 run.nonempty : TextAt bytes .utf32 _).elim
  · rw [mem_scan_iff room, kind]
    constructor
    · rintro ⟨i, count, ⟨⟨n, run, long, rfl⟩, -⟩, begins, length⟩
      exact ⟨i, n, run, long, begins, length.trans (Nat.mul_one _)⟩
    · rintro ⟨i, n, run, long, begins, length⟩
      exact ⟨i, _, ⟨⟨n, run, long, rfl⟩, by rintro ⟨⟩⟩, begins, length.trans (Nat.mul_one _).symm⟩
  · have apart {i : Nat} (begins : s.start.toNat = base.toNat + i) :
        (∀ t ∈ shown, t.kind = .ascii → t.start ≠ s.start) ↔
          ∀ c, ¬ Stands bytes shortest longest .ascii i c := by
      rw [← not_exists, ← exists_mem_scan_ascii room, ← begins]
      simp only [UInt64.toNat_inj, not_exists, not_and, shown, ne_eq]
    rw [mem_scan_iff room, kind]
    constructor
    · rintro ⟨i, count, ⟨⟨n, run, long, rfl⟩, alone⟩, begins, length⟩
      exact ⟨⟨i, n, run, long, begins, length.trans (Nat.mul_comm ..)⟩,
        (apart begins).2 (alone rfl)⟩
    · rintro ⟨⟨i, n, run, long, begins, length⟩, alone⟩
      exact ⟨i, _, ⟨⟨n, run, long, rfl⟩, fun _ => (apart begins).1 alone⟩, begins,
        length.trans (Nat.mul_comm ..)⟩
  · obtain ⟨c, narrow⟩ := (exists_mem_scan_ascii room).1 ⟨t, member, kind, begins⟩
    have wide : Stands bytes shortest longest .utf16 i (min n longest) := ⟨n, run, long, rfl⟩
    have := (narrow.single wide).1
    omega

/-- A letter in two bytes, which are a letter in one byte as well, two letters, and two in two bytes
each from an odd place on. -/
def mixedText : List UInt8 := [0x41, 0, 0x78, 0x42, 0, 0x43, 0, 0x80]

theorem mixed_text_shown :
    (0x10 : Word).toNat + mixedText.length < 0x10000000000000000 ∧
      ⟨.ascii, 0x10, 1⟩ ∈ scan mixedText 0x10 1 8 ∧ ⟨.ascii, 0x12, 2⟩ ∈ scan mixedText 0x10 1 8 ∧
      ⟨.utf16, 0x13, 4⟩ ∈ scan mixedText 0x10 1 8 ∧
      ⟨.utf16, 0x10, 2⟩ ∉ scan mixedText 0x10 1 8 := by
  obtain ⟨-, -, narrow, wide, -⟩ := scan_exact mixedText 0x10 1 8 (by decide)
  have letter : ⟨.ascii, 0x10, 1⟩ ∈ scan mixedText 0x10 1 8 :=
    (narrow _ rfl).2 ⟨0, 1, by decide⟩
  have apart : ∀ t ∈ scan mixedText 0x10 1 8, t.kind = .ascii → t.start ≠ 0x13 := by
    intro t member kind begins
    obtain ⟨i, n, run, -, place, -⟩ := (narrow t kind).1 member
    obtain rfl : i = 3 := by
      rw [begins] at place
      exact Nat.add_left_cancel place.symm
    exact run.starts.elim (by decide) fun before => before (by decide)
  exact ⟨by decide, letter, (narrow _ rfl).2 ⟨2, 2, by decide⟩,
    (wide _ rfl).2 ⟨⟨3, 2, by decide⟩, apart⟩,
    fun member => ((wide _ rfl).1 member).2 _ letter rfl rfl⟩

end Exactness

end StringScan

end BinaryAtlas
