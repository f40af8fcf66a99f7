import BinaryAtlas.Proofs.Listing.Units

/-!
The units that follow one another from the start of a space. They do not meet, they leave out no
valid address, and the one that holds an address is found from the address alone.
-/

set_option autoImplicit false

namespace BinaryAtlas

namespace Space

variable {s : Space} {settings : ListingSettings} {a u v p x : Word} {unit : ListingUnit}

/-- The unit that begins at `u` has this address in its range. -/
def Holds (s : Space) (settings : ListingSettings) (u a : Word) : Prop :=
  ∃ unit, Listing.unitAt? s settings u = some unit ∧ u ≤ a ∧ a < unit.stop

/-- The starts of the units from the start of the space on, each at the next valid address behind
the one before. -/
inductive Reached (s : Space) (settings : ListingSettings) : Word → Prop where
  | first (valid : s.isValid s.start = true) : Reached s settings s.start
  | next {u v : Word} {unit : ListingUnit} (reached : Reached s settings u)
      (shown : Listing.unitAt? s settings u = some unit)
      (after : Listing.nextValid? s unit.stop = some v) : Reached s settings v

theorem Placed.nextValid?_eq_some (placed : s.Placed)
    (found : Listing.nextValid? s a = some v) :
    a ≤ v ∧ s.isValid v = true ∧ ∀ b, a ≤ b → s.isValid b = true → v ≤ b := by
  have least := nextValid?_least placed.map a
  rw [found] at least
  exact ⟨least.1.1, least.1.2, fun b reached valid => least.2 b ⟨reached, valid⟩⟩

theorem Placed.nextValid?_eq_none (placed : s.Placed)
    (missing : Listing.nextValid? s a = none) (valid : s.isValid p = true) : p < a := by
  have least := nextValid?_least placed.map a
  rw [missing] at least
  exact Std.not_le.1 fun reached => least p ⟨reached, valid⟩

/-- The valid address behind a unit is not in the middle of a variable. -/
theorem Listable.sits_after (listable : s.Listable) (sits : s.Sits u)
    (shown : Listing.unitAt? s settings u = some unit)
    (after : Listing.nextValid? s unit.stop = some v) : s.Sits v := by
  obtain ⟨reached, valid, nearest⟩ := listable.placed.nextValid?_eq_some after
  obtain ⟨-, onward, within⟩ := listable.unit_fits sits shown
  refine ⟨valid, fun {w} member inside => ?_⟩
  obtain ⟨from_start, to_stop⟩ := AddressRange.contains_iff.1 inside
  have mapped : s.isValid w.address = true :=
    listable.variableMapped member (AddressRange.contains_start inside)
  have edge : s.Edge settings w.range.start :=
    listable.edge_of_start (.inr ⟨w, member, rfl⟩) inside
  refine Std.le_antisymm from_start (nearest _ ?_ mapped)
  -- The unit stops at the variable's start unless it begins in the variable, and then it is it.
  by_cases before : u < w.address
  · exact Std.le_trans within (edge u before)
  · have held : w.range.contains u = true := AddressRange.contains_iff.2
      ⟨Std.not_lt.1 before, Std.lt_trans onward (Std.lt_of_le_of_lt reached to_stop)⟩
    have here := sits.inVariable member held
    subst here
    obtain ⟨own, same, -, stop⟩ := listable.unitAt?_variable sits.valid member
    rw [Option.some.inj (shown.symm.trans same), stop] at reached
    exact absurd to_stop (Std.not_lt_of_ge reached)

theorem Listable.reached_sits (listable : s.Listable) (reached : s.Reached settings u) :
    s.Sits u := by
  induction reached with
  | first valid =>
    refine ⟨valid, fun {v} member inside => ?_⟩
    have mapped : s.isValid v.address = true :=
      listable.variableMapped member (AddressRange.contains_start inside)
    exact Std.le_antisymm (AddressRange.contains_iff.1 inside).1
      (start_least listable.map mapped).2
  | next _ shown after ih => exact listable.sits_after ih shown after

/-- No valid address is left out. -/
theorem Listable.reached_holds (listable : s.Listable) (valid : s.isValid p = true) :
    ∃ u, s.Reached settings u ∧ s.Holds settings u p := by
  have search (gap : Nat) (u : Word) (reached : s.Reached settings u) (below : u ≤ p)
      (gap_eq : p.toNat - u.toNat = gap) : ∃ u, s.Reached settings u ∧ s.Holds settings u p := by
    induction gap using Nat.strongRecOn generalizing u with
    | ind gap ih =>
      obtain ⟨unit, shown, -, onward, -⟩ :=
        listable.unitAt?_sits settings (listable.reached_sits reached)
      by_cases inside : p < unit.stop
      · exact ⟨u, reached, unit, shown, below, inside⟩
      · have least := nextValid?_least listable.map unit.stop
        cases after : Listing.nextValid? s unit.stop with
        | none =>
          rw [after] at least
          exact absurd ⟨Std.not_lt.1 inside, valid⟩ (least p)
        | some v =>
          obtain ⟨behind, -, nearest⟩ := listable.placed.nextValid?_eq_some after
          have ahead := UInt64.lt_iff_toNat_lt.1 (Std.lt_of_lt_of_le onward behind)
          have v_below := nearest p (Std.not_lt.1 inside) valid
          have := UInt64.le_iff_toNat_le.1 v_below
          exact ih (p.toNat - v.toNat) (by omega) v (reached.next shown after) v_below rfl
  obtain ⟨start_valid, start_below⟩ := start_least listable.map valid
  exact search _ s.start (.first start_valid) start_below rfl

/-- Units do not meet. -/
theorem Listable.reached_apart (listable : s.Listable) (reached : s.Reached settings u)
    (later : s.Reached settings v) (before : u < v)
    (shown : Listing.unitAt? s settings u = some unit) : unit.stop ≤ v := by
  induction place : v.toNat using Nat.strongRecOn generalizing u v unit with
  | ind place ih =>
    subst place
    cases later with
    | first valid =>
      have first := (start_least listable.map (listable.reached_sits reached).valid).2
      exact absurd before (Std.not_lt_of_ge first)
    | @next w _ last last_reached last_shown after =>
      obtain ⟨behind, -, nearest⟩ := listable.placed.nextValid?_eq_some after
      have onward := (listable.unit_fits (listable.reached_sits last_reached) last_shown).2.1
      have w_before := Std.lt_of_lt_of_le onward behind
      rcases Std.lt_trichotomy u w with ahead | rfl | passed
      · have apart := ih w.toNat (UInt64.lt_iff_toNat_lt.1 w_before) reached last_reached ahead
          shown rfl
        exact Std.le_trans apart (Std.le_of_lt w_before)
      · rw [Option.some.inj (shown.symm.trans last_shown)]
        exact behind
      · have apart := ih u.toNat (UInt64.lt_iff_toNat_lt.1 before) last_reached reached passed
          last_shown rfl
        exact absurd before
          (Std.not_lt_of_ge (nearest u apart (listable.reached_sits reached).valid))

theorem Listable.reached_unique (listable : s.Listable) (reached : s.Reached settings u)
    (reached' : s.Reached settings v) (holds : s.Holds settings u p)
    (holds' : s.Holds settings v p) : v = u := by
  obtain ⟨unit, shown, below, inside⟩ := holds
  obtain ⟨unit', shown', below', inside'⟩ := holds'
  rcases Std.lt_trichotomy u v with before | same | behind
  · have apart := listable.reached_apart reached reached' before shown
    exact absurd inside (Std.not_lt_of_ge (Std.le_trans apart below'))
  · exact same.symm
  · have apart := listable.reached_apart reached' reached behind shown'
    exact absurd inside' (Std.not_lt_of_ge (Std.le_trans apart below))

/-- A valid place that no unit passes begins one. -/
theorem Listable.reached_of_edge (listable : s.Listable) (valid : s.isValid x = true)
    (edge : s.Edge settings x) : s.Reached settings x := by
  obtain ⟨u, reached, unit, shown, below, inside⟩ := listable.reached_holds valid
  by_cases before : u < x
  · have within := (listable.unit_fits (listable.reached_sits reached) shown).2.2
    exact absurd inside (Std.not_lt_of_ge (Std.le_trans within (edge u before)))
  · rw [Std.le_antisymm (Std.not_lt.1 before) below]
    exact reached

theorem Listable.reached_of_covers (listable : s.Listable) {r : AddressRange}
    (covers : s.Covers r) (inside : r.contains p = true) : s.Reached settings r.start :=
  listable.reached_of_edge (listable.covers_valid covers (AddressRange.contains_start inside))
    (listable.edge_of_start covers inside)

theorem Listable.reached_stop (listable : s.Listable) (reached : s.Reached settings u)
    (shown : Listing.unitAt? s settings u = some unit) (valid : s.isValid unit.stop = true) :
    s.Reached settings unit.stop := by
  have least := nextValid?_least listable.map unit.stop
  exact reached.next shown (least.eq_some ⟨Std.le_refl _, valid⟩ fun b wanted => wanted.1)

theorem codeBlockAt?_within {function : Word} {b : BasicBlock} {architecture : Architecture}
    (found : Listing.codeBlockAt? s p = some (function, b, architecture)) (from_start : b.start ≤ a)
    (to_stop : a < b.stop) :
    ∃ function' b', Listing.codeBlockAt? s a = some (function', b', architecture) := by
  obtain ⟨known, held⟩ := codeBlockAt?_eq_some_iff.1 found
  cases here : s.functions.blockAt? a with
  | none =>
    have outside := FunctionTable.blockAt?_eq_none here (FunctionTable.blockAt?_eq_some held).1
    simp [BasicBlock.contains, from_start, to_stop] at outside
  | some entry => exact ⟨entry.1, entry.2, codeBlockAt?_eq_some_iff.2 ⟨known, here⟩⟩

theorem Listable.codeBlockAt?_inside (listable : s.Listable) {function : Word} {b : BasicBlock}
    {architecture : Architecture}
    (found : Listing.codeBlockAt? s p = some (function, b, architecture)) (from_start : b.start ≤ a)
    (to_stop : a < b.stop) :
    ∃ function' b', Listing.codeBlockAt? s a = some (function', b', architecture) ∧
      b'.stop = b.stop := by
  obtain ⟨function', b', here⟩ := codeBlockAt?_within found from_start to_stop
  have member := (FunctionTable.blockAt?_eq_some (codeBlockAt?_eq_some_iff.1 found).2).1
  obtain ⟨member', inside'⟩ := FunctionTable.blockAt?_eq_some (codeBlockAt?_eq_some_iff.1 here).2
  have inside : b.contains a = true := by simp [BasicBlock.contains, from_start, to_stop]
  exact ⟨function', b', here, (listable.blocksApart member member' inside inside').2⟩

theorem Listable.instructionStart_reached (listable : s.Listable) {function : Word} {b : BasicBlock}
    {architecture : Architecture}
    (found : Listing.codeBlockAt? s p = some (function, b, architecture)) {fuel : Nat}
    {current : Word} (reached : s.Reached settings current) (from_start : b.start ≤ current)
    (below : current ≤ p) (enough : p.toNat - current.toNat < fuel) :
    s.Reached settings (Listing.instructionStart s architecture b.stop p fuel current) ∧
      s.Holds settings (Listing.instructionStart s architecture b.stop p fuel current) p := by
  induction fuel generalizing current with
  | zero => omega
  | succ fuel ih =>
    obtain ⟨covers, holds⟩ := codeBlock_covers found
    have p_inside : p < b.stop := (AddressRange.contains_iff.1 holds).2
    have to_stop := Std.lt_of_le_of_lt below p_inside
    have valid := (listable.reached_sits reached).valid
    obtain ⟨function', b', here, same⟩ := listable.codeBlockAt?_inside found from_start to_stop
    obtain ⟨unit, shown, -, stop⟩ := listable.placed.walkable.unitAt?_code settings valid here
    have onward := (listable.unit_fits (listable.reached_sits reached) shown).2.1
    rw [same] at stop
    unfold Listing.instructionStart
    rw [if_pos to_stop, ← stop]
    by_cases inside : p < unit.stop
    · rw [if_pos inside]
      exact ⟨reached, unit, shown, below, inside⟩
    · rw [if_neg inside]
      have stop_below := Std.not_lt.1 inside
      have behind := Std.le_trans from_start (Std.le_of_lt onward)
      have stop_valid : s.isValid unit.stop = true := listable.covers_valid covers
        (AddressRange.contains_iff.2 ⟨behind, Std.lt_of_le_of_lt stop_below p_inside⟩)
      have := UInt64.lt_iff_toNat_lt.1 onward
      have := UInt64.le_iff_toNat_le.1 stop_below
      exact ih (listable.reached_stop reached shown stop_valid) behind stop_below (by omega)

theorem Listable.walkTo?_reached (listable : s.Listable) {fuel : Nat} {current : Word}
    (reached : s.Reached settings current) (below : current ≤ p)
    (valid : ∀ a, current ≤ a → a ≤ p → s.isValid a = true)
    (enough : p.toNat - current.toNat < fuel) :
    ∃ u, Listing.walkTo? s settings p fuel current = some u ∧ s.Reached settings u ∧
      s.Holds settings u p := by
  induction fuel generalizing current with
  | zero => omega
  | succ fuel ih =>
    obtain ⟨unit, shown, -, onward, -⟩ :=
      listable.unitAt?_sits settings (listable.reached_sits reached)
    unfold Listing.walkTo?
    rw [if_pos below, shown]
    by_cases inside : p < unit.stop
    · exact ⟨current, by simp [inside], reached, unit, shown, below, inside⟩
    · have stop_below := Std.not_lt.1 inside
      have stop_valid := valid unit.stop (Std.le_of_lt onward) stop_below
      have := UInt64.lt_iff_toNat_lt.1 onward
      have := UInt64.le_iff_toNat_le.1 stop_below
      obtain ⟨u, walked, facts⟩ := ih (listable.reached_stop reached shown stop_valid) stop_below
        (fun a behind below => valid a (Std.le_trans (Std.le_of_lt onward) behind) below) (by omega)
      exact ⟨u, by simp [inside, walked], facts⟩

/-- Nothing is missing from where the segment in effect begins, or the space where none is. -/
theorem Placed.segmentStart_mapped (placed : s.Placed) (valid : s.isValid p = true) :
    let first := match s.map.at? p with
      | some g => g.start
      | none => s.start
    first ≤ p ∧ ∀ a, first ≤ a → a ≤ p → s.isValid a = true := by
  cases found : s.map.at? p with
  | some g =>
    obtain ⟨member, from_start, to_stop⟩ := SegmentMap.mem_of_at? found
    refine ⟨from_start, fun a behind below => ?_⟩
    cases backend : s.backend with
    | raw =>
      rw [isValid_raw backend] at valid ⊢
      exact Std.lt_of_le_of_lt below valid
    | mapped label =>
      rw [isValid_mapped backend, SegmentMap.isValid_iff placed.map.spaced]
      exact ⟨g, member, behind, Std.lt_of_le_of_lt below to_stop⟩
  | none =>
    cases backend : s.backend with
    | raw =>
      have zero : s.start = 0 := by simp [start, backend, Backend.start]
      simp only [isValid_raw backend, zero] at valid ⊢
      exact ⟨UInt64.zero_le, fun a _ below => Std.lt_of_le_of_lt below valid⟩
    | mapped label =>
      rw [isValid_mapped backend] at valid
      simp [SegmentMap.isValid, found] at valid

/-- No row passes the start of a segment, or that of the space. -/
theorem Listable.segmentStart_rowEdge (listable : s.Listable) (valid : s.isValid p = true) :
    let first := match s.map.at? p with
      | some g => g.start
      | none => s.start
    s.RowEdge settings first := by
  cases found : s.map.at? p with
  | some g =>
    obtain ⟨member, from_start, to_stop⟩ := SegmentMap.mem_of_at? found
    exact listable.rowEdge_of_marks
      (.inr (.inr ⟨g, member, rfl, Std.lt_of_le_of_lt from_start to_stop⟩))
  | none =>
    cases backend : s.backend with
    | raw =>
      have zero : s.start = 0 := by simp [start, backend, Backend.start]
      simp only [zero]
      exact fun a before => absurd before (Std.not_lt_of_ge UInt64.zero_le)
    | mapped label =>
      rw [isValid_mapped backend] at valid
      simp [SegmentMap.isValid, found] at valid

/-- What is not covered lies in a row, which is found from the start of the row or the segment. -/
theorem Listable.walkFrom_reached (listable : s.Listable)
    (uncovered : Listing.coveredStop? s p = none) {first : Word} (below : first ≤ p)
    (rows : s.RowEdge settings first) (mapped : ∀ a, first ≤ a → a ≤ p → s.isValid a = true) :
    let anchor := Listing.raiseAnchor s p p.toNat (max (p - p % settings.row) first)
    ∃ u, Listing.walkTo? s settings p ((p - anchor).toNat + 1) anchor = some u ∧
      s.Reached settings u ∧ s.Holds settings u p := by
  have place := toNat_rowStart p settings.row
  have aligned : s.RowEdge settings (p - p % settings.row) := by
    refine listable.rowEdge_of_multiple ?_
    rw [place, Nat.sub_mod_eq_zero_of_mod_eq (Nat.mod_mod _ _).symm]
  have row_below : p - p % settings.row ≤ p := UInt64.le_iff_toNat_le.2 (by omega)
  obtain ⟨low, low_below, low_rows⟩ : first ≤ max (p - p % settings.row) first ∧
      max (p - p % settings.row) first ≤ p ∧
      s.RowEdge settings (max (p - p % settings.row) first) := by
    rw [Word.max_eq]
    split
    · exact ⟨Std.le_refl _, below, rows⟩
    · rename_i above
      exact ⟨Std.le_of_lt (Std.not_le.1 above), row_below, aligned⟩
  intro anchor
  obtain ⟨raised, anchor_below, edge⟩ :
      max (p - p % settings.row) first ≤ anchor ∧ anchor ≤ p ∧ s.Edge settings anchor :=
    listable.raiseAnchor_edge uncovered low_below (Nat.sub_le _ _) low_rows
  have from_first : first ≤ anchor := Std.le_trans low raised
  have reached : s.Reached settings anchor :=
    listable.reached_of_edge (mapped anchor from_first anchor_below) edge
  have gap := (Word.sub?_of_le (UInt64.le_iff_toNat_le.1 anchor_below)).2
  exact listable.walkTo?_reached reached anchor_below
    (fun a behind => mapped a (Std.le_trans from_first behind))
    (by omega)

/-- The start of the unit that holds an address. -/
theorem Listable.unitStart?_reached (listable : s.Listable) (settings : ListingSettings)
    (valid : s.isValid p = true) :
    ∃ u, Listing.unitStart? s settings p = some u ∧ s.Reached settings u ∧
      s.Holds settings u p := by
  unfold Listing.unitStart?
  simp only [valid, Bool.not_true, Bool.false_eq_true, if_false]
  cases coded : Listing.codeBlockAt? s p with
  | some entry =>
    obtain ⟨function, b, architecture⟩ := entry
    obtain ⟨covers, inside⟩ := codeBlock_covers coded
    have reached : s.Reached settings b.start := listable.reached_of_covers covers inside
    obtain ⟨from_start, to_stop⟩ : b.start ≤ p ∧ p < b.stop := AddressRange.contains_iff.1 inside
    have below := UInt64.le_iff_toNat_le.1 from_start
    have above := UInt64.lt_iff_toNat_lt.1 to_stop
    have room := (Word.sub?_of_le (show b.start.toNat ≤ b.stop.toNat by omega)).2
    exact ⟨_, rfl, listable.instructionStart_reached coded reached (Std.le_refl _) from_start
      (by omega)⟩
  | none =>
    cases named : s.variableContaining? p with
    | some v =>
      obtain ⟨covers, inside⟩ := variable_covers named
      have reached : s.Reached settings v.address := listable.reached_of_covers covers inside
      obtain ⟨from_start, to_stop⟩ : v.address ≤ p ∧ p < v.range.stop :=
        AddressRange.contains_iff.1 inside
      obtain ⟨unit, shown, -, stop⟩ := listable.unitAt?_variable
        (listable.reached_sits reached).valid (variableContaining?_eq_some named).1
      exact ⟨_, rfl, reached, unit, shown, from_start, stop ▸ to_stop⟩
    | none =>
      have uncovered : Listing.coveredStop? s p = none := by
        simp [Listing.coveredStop?, coded, named]
      obtain ⟨below, mapped⟩ := listable.placed.segmentStart_mapped valid
      exact listable.walkFrom_reached uncovered below (listable.segmentStart_rowEdge valid) mapped

end Space

end BinaryAtlas
