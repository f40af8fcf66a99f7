import BinaryAtlas.Listing.Unit
import BinaryAtlas.Proofs.SegmentMap.Accounts

/-!
Which addresses of a space are valid, and where the searches for the next one up or down lead.
-/

set_option autoImplicit false

namespace BinaryAtlas

namespace Word

/-- The answer of a search upwards: the least of the words that are wanted, if there is one. -/
def Least (wanted : Word → Prop) : Option Word → Prop
  | some a => wanted a ∧ ∀ b, wanted b → a ≤ b
  | none => ∀ b, ¬ wanted b

/-- The answer of a search downwards. -/
def Greatest (wanted : Word → Prop) : Option Word → Prop
  | some a => wanted a ∧ ∀ b, wanted b → b ≤ a
  | none => ∀ b, ¬ wanted b

variable {wanted other : Word → Prop} {x y : Option Word} {a : Word}

theorem Least.congr (least : Least wanted x) (same : ∀ b, wanted b ↔ other b) : Least other x := by
  have : wanted = other := funext fun b => propext (same b)
  exact this ▸ least

theorem Least.eq_some (least : Least wanted x) (here : wanted a) (first : ∀ b, wanted b → a ≤ b) :
    x = some a := by
  cases x with
  | none => exact absurd here (least a)
  | some b => exact congrArg some (Std.le_antisymm (least.2 a here) (first b least.1))

theorem Least.eq_none (least : Least wanted x) (nothing : ∀ b, ¬ wanted b) : x = none := by
  cases x with
  | none => rfl
  | some b => exact absurd least.1 (nothing b)

theorem Greatest.eq_none (greatest : Greatest wanted x) (nothing : ∀ b, ¬ wanted b) :
    x = none := by
  cases x with
  | none => rfl
  | some b => exact absurd greatest.1 (nothing b)

theorem Least.exists_le_iff (least : Least wanted x) :
    (∃ b, x = some b ∧ b ≤ a) ↔ ∃ b, wanted b ∧ b ≤ a := by
  cases x with
  | none => simpa using fun b here => absurd here (least b)
  | some first =>
    simp only [Option.some.injEq, exists_eq_left']
    constructor
    · exact fun below => ⟨first, least.1, below⟩
    · exact fun ⟨b, here, below⟩ => Std.le_trans (least.2 b here) below

theorem foldl_min_le_iff (l : List Word) (first : Word) :
    l.foldl min first ≤ a ↔ first ≤ a ∨ ∃ b ∈ l, b ≤ a := by
  induction l generalizing first with
  | nil => simp
  | cons b rest ih =>
    rw [List.foldl_cons, ih, Std.min_le]
    simp [or_assoc]

theorem min?_least (l : List Word) : Least (· ∈ l) l.min? := by
  cases first : l.min? with
  | none =>
    rw [List.min?_eq_none_iff.1 first]
    simp [Least]
  | some a => exact List.min?_eq_some_iff.1 first

theorem max?_greatest {l : List Word} (found : ∀ b ∈ l, wanted b)
    (reached : ∀ b, wanted b → ∃ c ∈ l, b ≤ c) : Greatest wanted l.max? := by
  cases last : l.max? with
  | none =>
    intro b here
    obtain ⟨c, member, -⟩ := reached b here
    rw [List.max?_eq_none_iff.1 last] at member
    cases member
  | some a =>
    obtain ⟨member, greatest⟩ := List.max?_eq_some_iff.1 last
    refine ⟨found a member, fun b here => ?_⟩
    obtain ⟨c, later, behind⟩ := reached b here
    exact Std.le_trans behind (greatest c later)

end Word

namespace SegmentMap

variable {m : SegmentMap}

theorem Spaced.ordered (spaced : m.Spaced) {s : Segment} (member : s ∈ m.allSegments) :
    s.start ≤ s.stop := by
  rcases List.mem_append.1 member with user | auto
  · obtain ⟨key, held⟩ := (Table.mem_values_iff m.userSegments s).1 user
    exact spaced.user.ordered held
  · obtain ⟨key, held⟩ := (Table.mem_values_iff m.autoSegments s).1 auto
    exact spaced.auto.ordered held

theorem not_isEmpty_iff (spaced : m.Spaced) {s : Segment} (member : s ∈ m.allSegments) :
    (!s.range.isEmpty) = true ↔ s.start < s.stop :=
  SegmentLayer.not_isEmpty_iff (spaced.ordered member)

theorem layer_isSome_at?_iff {layer : SegmentLayer} (spaced : layer.Spaced) {a : Word} :
    (layer.at? a).isSome = true ↔ ∃ s ∈ layer.values, s.start ≤ a ∧ a < s.stop := by
  simp only [Option.isSome_iff_exists, SegmentLayer.at?_eq_some_iff spaced, Table.mem_values_iff]
  constructor
  · rintro ⟨s, held, covers⟩
    exact ⟨s, ⟨s.start, held⟩, covers⟩
  · rintro ⟨s, ⟨key, held⟩, covers⟩
    exact ⟨s, (spaced.filed held).symm ▸ held, covers⟩

theorem isValid_iff (spaced : m.Spaced) {a : Word} :
    m.isValid a = true ↔ ∃ s ∈ m.allSegments, s.start ≤ a ∧ a < s.stop := by
  have either : m.isValid a =
      ((m.userSegments.at? a).isSome || (m.autoSegments.at? a).isSome) := by
    unfold isValid at?
    cases m.userSegments.at? a <;> rfl
  rw [either, Bool.or_eq_true, layer_isSome_at?_iff spaced.user, layer_isSome_at?_iff spaced.auto]
  simp only [allSegments, List.mem_append, or_and_right, exists_or]

/-- A segment that is not empty begins here, be it in effect or not. -/
def Begins (m : SegmentMap) (a : Word) : Prop := ∃ s ∈ m.allSegments, s.start = a ∧ a < s.stop

theorem isValid_of_begins (spaced : m.Spaced) {a : Word} (begins : m.Begins a) :
    m.isValid a = true := by
  obtain ⟨s, member, rfl, before⟩ := begins
  exact (isValid_iff spaced).2 ⟨s, member, Std.le_refl _, before⟩

theorem begins_between (spaced : m.Spaced) {a b : Word} (invalid : m.isValid a = false)
    (reached : a ≤ b) (valid : m.isValid b = true) : ∃ c, a ≤ c ∧ c ≤ b ∧ m.Begins c := by
  obtain ⟨s, member, from_start, to_stop⟩ := (isValid_iff spaced).1 valid
  refine ⟨s.start, ?_, from_start, s, member, rfl, Std.lt_of_le_of_lt from_start to_stop⟩
  by_contra ahead
  have covered := (isValid_iff spaced).2
    ⟨s, member, Std.le_of_lt (Std.not_le.1 ahead), Std.lt_of_le_of_lt reached to_stop⟩
  rw [invalid] at covered
  cases covered

theorem layer_nextStart?_least {layer : SegmentLayer} (spaced : layer.Spaced) (a : Word) :
    Word.Least (fun b => a ≤ b ∧ ∃ s ∈ layer.values, s.start = b ∧ b < s.stop)
      (layer.nextStart? a) := by
  cases found : layer.nextStart? a with
  | none =>
    rintro b ⟨reached, s, member, rfl, before⟩
    obtain ⟨key, held⟩ := (Table.mem_values_iff layer s).1 member
    have filed := spaced.filed held
    subst filed
    exact SegmentLayer.nextStart?_eq_none spaced found _ s held reached before
  | some next =>
    obtain ⟨⟨s, held, reached, before⟩, nearest⟩ := SegmentLayer.nextStart?_eq_some spaced found
    constructor
    · exact ⟨reached, s, (Table.mem_values_iff layer s).2 ⟨next, held⟩, spaced.filed held, before⟩
    · rintro b ⟨behind, t, member, rfl, nonempty⟩
      obtain ⟨key, other⟩ := (Table.mem_values_iff layer t).1 member
      have filed := spaced.filed other
      subst filed
      exact nearest _ t other behind nonempty

theorem lesser_least {wanted other : Word → Prop} {x y : Option Word}
    (first : Word.Least wanted x) (second : Word.Least other y) :
    Word.Least (fun b => wanted b ∨ other b) (lesser x y) := by
  cases x with
  | none =>
    cases y with
    | none => exact fun b either => either.elim (first b) (second b)
    | some b => exact ⟨.inr second.1, fun c either => either.elim (absurd · (first c)) (second.2 c)⟩
  | some a =>
    cases y with
    | none => exact ⟨.inl first.1, fun c either => either.elim (first.2 c) (absurd · (second c))⟩
    | some b =>
      simp only [lesser, Word.Least, Word.min_eq] at first second ⊢
      grind

theorem nextStart?_least (spaced : m.Spaced) (a : Word) :
    Word.Least (fun b => a ≤ b ∧ m.Begins b) (m.nextStart? a) := by
  have least := lesser_least (layer_nextStart?_least spaced.user a)
    (layer_nextStart?_least spaced.auto a)
  refine least.congr fun b => ?_
  simp only [Begins, allSegments, List.mem_append, or_and_right, exists_or, ← and_or_left]

theorem nextStartAfter?_least (spaced : m.Spaced) (a : Word) :
    Word.Least (fun b => a < b ∧ m.Begins b) (m.nextStartAfter? a) := by
  have one : (1 : Word).toNat = 1 := rfl
  unfold nextStartAfter?
  cases found : Word.add? a 1 with
  | none =>
    rintro b ⟨behind, -⟩
    have := Word.add?_eq_none_iff.1 found
    have := UInt64.lt_iff_toNat_lt.1 behind
    have := b.toNat_lt
    omega
  | some next =>
    have place := Word.add?_eq_some_iff.1 found
    refine (nextStart?_least spaced next).congr fun b => ?_
    rw [UInt64.le_iff_toNat_le, UInt64.lt_iff_toNat_lt, place, one, Nat.succ_le_iff]

theorem nextValid?_least (spaced : m.Spaced) (a : Word) :
    Word.Least (fun b => a ≤ b ∧ m.isValid b = true) (m.nextValid? a) := by
  have least := nextStart?_least spaced a
  unfold nextValid?
  split
  · rename_i valid
    exact ⟨⟨Std.le_refl _, valid⟩, fun b found => found.1⟩
  · rename_i invalid
    rw [Bool.not_eq_true] at invalid
    cases found : m.nextStart? a with
    | none =>
      rw [found] at least
      rintro b ⟨reached, valid⟩
      obtain ⟨c, behind, -, begins⟩ := begins_between spaced invalid reached valid
      exact least c ⟨behind, begins⟩
    | some next =>
      rw [found] at least
      refine ⟨⟨least.1.1, isValid_of_begins spaced least.1.2⟩, ?_⟩
      rintro b ⟨reached, valid⟩
      obtain ⟨c, behind, below, begins⟩ := begins_between spaced invalid reached valid
      exact Std.le_trans (least.2 c ⟨behind, begins⟩) below

/-- Where nothing is mapped just below an address, the next one down ends a segment. -/
theorem lastBefore_greatest (spaced : m.Spaced) {a p : Word} (place : a.toNat = 1 + p.toNat)
    (invalid : m.isValid p = false) :
    Word.Greatest (fun b => b < a ∧ m.isValid b = true)
      (((m.segments.filter fun s => !s.range.isEmpty && s.stop ≤ a).map (·.stop - 1)).filter
        m.isValid).max? := by
  have listed (s : Segment) : s ∈ m.segments ↔ s ∈ m.allSegments := List.mem_mergeSort
  have last {s : Segment} (nonempty : s.start < s.stop) : (s.stop - 1).toNat = s.stop.toNat - 1 :=
    (Word.sub?_of_le (b := 1) (Nat.lt_of_le_of_lt (Nat.zero_le _)
      (UInt64.lt_iff_toNat_lt.1 nonempty))).2
  apply Word.max?_greatest
  · intro c member
    obtain ⟨candidate, valid⟩ := List.mem_filter.1 member
    obtain ⟨s, kept, rfl⟩ := List.mem_map.1 candidate
    obtain ⟨held, fits⟩ := List.mem_filter.1 kept
    obtain ⟨nonempty, below⟩ := Bool.and_eq_true_iff.1 fits
    have before := (not_isEmpty_iff spaced ((listed s).1 held)).1 nonempty
    have := last before
    have := UInt64.le_iff_toNat_le.1 (of_decide_eq_true below)
    have := UInt64.lt_iff_toNat_lt.1 before
    exact ⟨UInt64.lt_iff_toNat_lt.2 (by omega), valid⟩
  · rintro b ⟨before, valid⟩
    obtain ⟨s, member, from_start, to_stop⟩ := (isValid_iff spaced).1 valid
    have nonempty := Std.lt_of_le_of_lt from_start to_stop
    have place_of_last := last nonempty
    rw [UInt64.lt_iff_toNat_lt] at before to_stop nonempty
    rw [UInt64.le_iff_toNat_le] at from_start
    -- A segment that reached further up would hold `p` as well.
    have below : s.stop ≤ a := by
      rw [UInt64.le_iff_toNat_le]
      by_contra further
      have covered := (isValid_iff spaced).2 ⟨s, member, UInt64.le_iff_toNat_le.2 (by omega),
        UInt64.lt_iff_toNat_lt.2 (show p.toNat < s.stop.toNat by omega)⟩
      rw [invalid] at covered
      cases covered
    have kept : s.stop - 1 ∈
        (m.segments.filter fun s => !s.range.isEmpty && s.stop ≤ a).map (·.stop - 1) := by
      refine List.mem_map.2 ⟨s, List.mem_filter.2 ⟨(listed s).2 member, ?_⟩, rfl⟩
      rw [(not_isEmpty_iff spaced member).2 (UInt64.lt_iff_toNat_lt.2 nonempty)]
      exact decide_eq_true below
    refine ⟨s.stop - 1, List.mem_filter.2 ⟨kept, (isValid_iff spaced).2 ⟨s, member, ?_, ?_⟩⟩, ?_⟩
    · exact UInt64.le_iff_toNat_le.2 (by omega)
    · exact UInt64.lt_iff_toNat_lt.2 (by omega)
    · exact UInt64.le_iff_toNat_le.2 (by omega)

theorem start_least (spaced : m.Spaced) {a : Word} (valid : m.isValid a = true) :
    m.isValid m.start = true ∧ m.start ≤ a := by
  obtain ⟨s, member, from_start, to_stop⟩ := (isValid_iff spaced).1 valid
  have listed : s.start ∈ (m.allSegments.filter (!·.range.isEmpty)).map (·.start) :=
    List.mem_map.2 ⟨s, List.mem_filter.2
      ⟨member, (not_isEmpty_iff spaced member).2 (Std.lt_of_le_of_lt from_start to_stop)⟩, rfl⟩
  cases found : ((m.allSegments.filter (!·.range.isEmpty)).map (·.start)).min? with
  | none =>
    rw [List.min?_eq_none_iff.1 found] at listed
    cases listed
  | some first =>
    obtain ⟨present, least⟩ := List.min?_eq_some_iff.1 found
    have start_eq : m.start = first := by rw [start, found]; rfl
    obtain ⟨t, kept, rfl⟩ := List.mem_map.1 present
    obtain ⟨held, nonempty⟩ := List.mem_filter.1 kept
    rw [start_eq]
    exact ⟨isValid_of_begins spaced ⟨t, held, rfl, (not_isEmpty_iff spaced held).1 nonempty⟩,
      Std.le_trans (least _ listed) from_start⟩

theorem stop_le {s : Segment} (member : s ∈ m.allSegments) : s.stop ≤ m.stop := by
  have listed : s.stop ∈ m.allSegments.map (·.stop) := List.mem_map.2 ⟨s, member, rfl⟩
  cases found : (m.allSegments.map (·.stop)).max? with
  | none =>
    rw [List.max?_eq_none_iff.1 found] at listed
    cases listed
  | some last =>
    have stop_eq : m.stop = last := by rw [stop, found]; rfl
    rw [stop_eq]
    exact (List.max?_eq_some_iff.1 found).2 _ listed

theorem lt_stop {a : Word} (valid : m.isValid a = true) : a < m.stop := by
  obtain ⟨s, here⟩ := Option.isSome_iff_exists.1 valid
  obtain ⟨member, -, before⟩ := mem_of_at? here
  exact Std.lt_of_lt_of_le before (stop_le member)

section Filed

variable (filed : ∀ {auto start s}, (m.layer auto).get? start = some s → s.start = start)
  {a next : Word}

include filed

/-- Also where segments overlap or end before they begin, searches upwards do not go down. -/
theorem le_layer_nextStart? {auto : Bool} (found : (m.layer auto).nextStart? a = some next) :
    a ≤ next := by
  obtain ⟨⟨start, s⟩, entry, rfl⟩ := Option.map_eq_some_iff.1 found
  obtain ⟨held, wanted, -⟩ := Table.find?_entries_eq_some entry
  rw [filed held]
  simp only [Bool.and_eq_true, decide_eq_true_eq] at wanted
  exact wanted.1

theorem le_nextStart? (found : m.nextStart? a = some next) : a ≤ next := by
  have user {x : Word} (found : m.userSegments.nextStart? a = some x) : a ≤ x :=
    le_layer_nextStart? filed (show (m.layer false).nextStart? a = some x from found)
  have auto {x : Word} (found : m.autoSegments.nextStart? a = some x) : a ≤ x :=
    le_layer_nextStart? filed (show (m.layer true).nextStart? a = some x from found)
  unfold nextStart? lesser at found
  split at found
  · rename_i x y first second
    cases found
    exact Std.le_min_iff.2 ⟨user first, auto second⟩
  · exact auto found
  · exact user found

theorem lt_nextStartAfter? (found : m.nextStartAfter? a = some next) : a < next := by
  unfold nextStartAfter? at found
  split at found
  · rename_i behind added
    have place := Word.add?_eq_some_iff.1 added
    have from_there := UInt64.le_iff_toNat_le.1 (le_nextStart? filed found)
    have one : (1 : Word).toNat = 1 := rfl
    rw [UInt64.lt_iff_toNat_lt]
    omega
  · cases found

theorem le_nextValid? (found : m.nextValid? a = some next) : a ≤ next := by
  unfold nextValid? at found
  split at found
  · cases found
    exact Std.le_refl _
  · exact le_nextStart? filed found

end Filed

end SegmentMap

namespace Space

variable {s : Space} {a : Word}

theorem isValid_raw (raw : s.backend = .raw) (a : Word) :
    s.isValid a = true ↔ a < s.storage.length := by
  simp [isValid, raw, Backend.isValid]

theorem isValid_mapped {label : String} (mapped : s.backend = .mapped label) (a : Word) :
    s.isValid a = s.map.isValid a := by
  simp [isValid, mapped, Backend.isValid]

theorem nextValid_mapped {label : String} (mapped : s.backend = .mapped label) (a : Word) :
    s.nextValid a = (s.map.nextValid? a).getD s.stop := by
  simp [nextValid, stop, start, length, mapped, Backend.nextValid, Backend.start, Backend.length]

theorem stop_eq (s : Space) :
    s.stop = match s.backend with
      | .raw => s.storage.length
      | .mapped _ => s.map.stop := by
  unfold stop start length
  cases s.backend with
  | raw => exact UInt64.zero_add _
  | mapped label =>
    show s.map.start + (s.map.stop - s.map.start) = s.map.stop
    grind

theorem lt_stop (valid : s.isValid a = true) : a < s.stop := by
  rw [stop_eq]
  cases backend : s.backend with
  | raw => exact (isValid_raw backend a).1 valid
  | mapped label =>
    rw [isValid_mapped backend] at valid
    exact SegmentMap.lt_stop valid

/-- Where nothing valid is ahead, the next valid address is not valid either. -/
theorem le_nextValid
    (filed : ∀ {auto start g}, (s.map.layer auto).get? start = some g → g.start = start)
    (valid : s.isValid (s.nextValid a) = true) : a ≤ s.nextValid a := by
  cases backend : s.backend with
  | raw =>
    rw [isValid_raw backend] at valid
    simp only [nextValid, backend, Backend.nextValid, Word.min_eq] at valid ⊢
    grind
  | mapped label =>
    have below := lt_stop valid
    rw [nextValid_mapped backend] at below ⊢
    cases found : s.map.nextValid? a with
    | none => simp [found, Std.lt_irrefl] at below
    | some next => exact SegmentMap.le_nextValid? filed found

theorem le_of_nextValid?
    (filed : ∀ {auto start g}, (s.map.layer auto).get? start = some g → g.start = start)
    {next : Word} (found : Listing.nextValid? s a = some next) : a ≤ next := by
  simp only [Listing.nextValid?, Option.ite_none_right_eq_some, Option.some.injEq,
    Bool.and_eq_true] at found
  obtain ⟨⟨-, valid⟩, rfl⟩ := found
  exact le_nextValid filed valid

theorem start_least (sound : s.map.Sound) (valid : s.isValid a = true) :
    s.isValid s.start = true ∧ s.start ≤ a := by
  cases backend : s.backend with
  | raw =>
    have first : s.start = 0 := by simp [start, backend, Backend.start]
    rw [isValid_raw backend] at valid
    rw [first, isValid_raw backend]
    exact ⟨Std.lt_of_le_of_lt UInt64.zero_le valid, UInt64.zero_le⟩
  | mapped label =>
    have first : s.start = s.map.start := by simp [start, backend, Backend.start]
    rw [isValid_mapped backend] at valid
    rw [first, isValid_mapped backend]
    exact SegmentMap.start_least sound.spaced valid

theorem nextValid?_least (sound : s.map.Sound) (a : Word) :
    Word.Least (fun b => a ≤ b ∧ s.isValid b = true) (Listing.nextValid? s a) := by
  have below {b : Word} (valid : s.isValid b = true) : b < s.stop := lt_stop valid
  have answer {b : Word} (valid : s.isValid b = true) (next : s.nextValid a = b) :
      Listing.nextValid? s a = some b := by
    simp [Listing.nextValid?, next, valid, below valid]
  have nothing (next : s.nextValid a = s.stop) : Listing.nextValid? s a = none := by
    simp [Listing.nextValid?, next]
  cases backend : s.backend with
  | raw =>
    have stored := isValid_raw backend
    by_cases before : a < s.storage.length
    · have next : s.nextValid a = a := by
        simp only [nextValid, backend, Backend.nextValid, Word.min_eq]
        grind
      rw [answer ((stored a).2 before) next]
      exact ⟨⟨Std.le_refl _, (stored a).2 before⟩, fun b found => found.1⟩
    · have next : s.nextValid a = s.stop := by
        simp only [nextValid, stop_eq, backend, Backend.nextValid, Word.min_eq]
        grind
      rw [nothing next]
      rintro b ⟨reached, valid⟩
      exact before (Std.lt_of_le_of_lt reached ((stored b).1 valid))
  | mapped label =>
    have same := isValid_mapped backend
    have least := SegmentMap.nextValid?_least sound.spaced a
    have next := nextValid_mapped backend a
    cases found : s.map.nextValid? a with
    | none =>
      rw [found] at least next
      rw [nothing next]
      simpa [Word.Least, same] using least
    | some b =>
      rw [found] at least next
      rw [answer ((same b).trans least.1.2) next]
      simpa [Word.Least, same] using least

theorem previousValid?_of_last
    (last : ∀ p : Word, a.toNat = 1 + p.toNat → s.isValid p = false →
      Word.Greatest (fun b => b < a ∧ s.isValid b = true)
        (((s.map.segments.filter fun g => !g.range.isEmpty && g.stop ≤ a).map
          (·.stop - 1)).filter s.isValid).max?) :
    Word.Greatest (fun b => b < a ∧ s.isValid b = true) (Listing.previousValid? s a) := by
  unfold Listing.previousValid?
  cases found : Word.sub? a 1 with
  | none =>
    rintro b ⟨before, -⟩
    unfold Word.sub? at found
    grind
  | some p =>
    have place := Word.sub?_eq_some_iff.1 found
    have one : (1 : Word).toNat = 1 := rfl
    have at_most {b : Word} (before : b < a) : b ≤ p := by
      rw [UInt64.lt_iff_toNat_lt] at before
      rw [UInt64.le_iff_toNat_le]
      omega
    have just_below : p < a := by
      rw [UInt64.lt_iff_toNat_lt]
      omega
    simp only
    split
    · rename_i valid
      exact ⟨⟨just_below, valid⟩, fun b wanted => at_most wanted.1⟩
    · rename_i invalid
      exact last p place (by simpa using invalid)

theorem previousValid?_mapped {label : String} (mapped : s.backend = .mapped label)
    (spaced : s.map.Spaced) (a : Word) :
    Word.Greatest (fun b => b < a ∧ s.isValid b = true) (Listing.previousValid? s a) := by
  have same : s.isValid = s.map.isValid := funext (isValid_mapped mapped)
  refine previousValid?_of_last fun p place invalid => ?_
  rw [same] at invalid ⊢
  exact SegmentMap.lastBefore_greatest spaced place invalid

theorem previousValid?_greatest (sound : s.map.Sound) (within : a ≤ s.stop) :
    Word.Greatest (fun b => b < a ∧ s.isValid b = true) (Listing.previousValid? s a) := by
  cases backend : s.backend with
  | mapped label => exact previousValid?_mapped backend sound.spaced a
  | raw =>
    refine previousValid?_of_last fun p place invalid => ?_
    rw [stop_eq, backend] at within
    have just_below : p < a := by
      rw [UInt64.lt_iff_toNat_lt]
      omega
    -- All that lies below the end of the storage is valid.
    have stored := (isValid_raw backend p).2 (Std.lt_of_lt_of_le just_below within)
    rw [invalid] at stored
    cases stored

end Space

end BinaryAtlas
