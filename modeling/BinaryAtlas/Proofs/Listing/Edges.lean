import BinaryAtlas.Proofs.Listing.Covering

/-!
Places that no unit of a listing passes: where a block or variable begins or ends, and outside of
them each multiple of the length of a row and each start of a segment.
-/

set_option autoImplicit false

namespace BinaryAtlas

namespace Space

variable {s : Space} {settings : ListingSettings} {a x p : Word} {r : AddressRange}

/-- How far a unit that begins here can go. -/
def limit (s : Space) (settings : ListingSettings) (a : Word) : Word :=
  (Listing.coveredStop? s a).getD (Listing.rowStop s settings a)

/-- Rows of bytes that begin below do not pass this place. -/
def RowEdge (s : Space) (settings : ListingSettings) (x : Word) : Prop :=
  ∀ a, a < x → Listing.coveredStop? s a = none → Listing.rowStop s settings a ≤ x

/-- No unit that begins below passes this place. -/
def Edge (s : Space) (settings : ListingSettings) (x : Word) : Prop :=
  ∀ a, a < x → s.limit settings a ≤ x

theorem Edge.rows (edge : s.Edge settings x) : s.RowEdge settings x := by
  intro a before uncovered
  have within := edge a before
  rwa [limit, uncovered] at within

theorem row_pos (settings : ListingSettings) : 0 < settings.row.toNat := by
  have one : (1 : Word).toNat = 1 := rfl
  have least : (1 : Word) ≤ settings.row := Std.right_le_max
  rw [UInt64.le_iff_toNat_le] at least
  omega

theorem toNat_rowStart (a row : Word) : (a - a % row).toNat = a.toNat - a.toNat % row.toNat := by
  have := UInt64.toNat_mod a row
  have place := (Word.sub?_of_le (a := a) (b := a % row) (by
    rw [UInt64.toNat_mod]
    exact Nat.mod_le _ _)).2
  rw [place, UInt64.toNat_mod]

theorem Walkable.lt_rowStop (walkable : s.Walkable) (valid : s.isValid a = true) :
    a < Listing.rowStop s settings a := by
  unfold Listing.rowStop
  rw [← Std.not_le, Word.foldl_min_le_iff]
  rintro (within | ⟨b, member, within⟩)
  · have := UInt64.lt_iff_toNat_lt.1 (lt_stop valid)
    have := s.stop.toNat_lt
    have := Nat.mod_lt a.toNat (row_pos settings)
    rw [UInt64.le_iff_toNat_le, Word.toNat_addCapped, toNat_rowStart] at within
    omega
  · refine Std.not_le_of_gt ?_ within
    simp only [List.mem_append, Option.mem_toList] at member
    rcases member with (variable_ | block) | segment
    · have least := variableAfter?_least walkable.filed a
      rw [variable_] at least
      exact least.1.1
    · have least := nextBlock_least s a
      rw [block] at least
      exact least.1.1
    · exact SegmentMap.lt_nextStartAfter? walkable.segmentsFiled segment

theorem Listable.rowEdge_of_marks (listable : s.Listable) (marks : s.Marks x) :
    s.RowEdge settings x :=
  fun a before _ =>
    (listable.placed.rowStop_le_iff settings a x).2 (.inr ⟨x, ⟨before, marks⟩, Std.le_refl x⟩)

theorem Listable.rowEdge_of_multiple (listable : s.Listable)
    (multiple : x.toNat % settings.row.toNat = 0) : s.RowEdge settings x := by
  intro a before _
  rw [listable.placed.rowStop_le_iff, UInt64.le_iff_toNat_le, Word.toNat_addCapped, toNat_rowStart]
  left
  rw [UInt64.lt_iff_toNat_lt] at before
  have rows := Nat.div_add_mod a.toNat settings.row.toNat
  have rows' := Nat.div_add_mod x.toNat settings.row.toNat
  have earlier : a.toNat / settings.row.toNat < x.toNat / settings.row.toNat :=
    Nat.div_lt_of_lt_mul (by omega)
  have row_fits := Nat.mul_le_mul_left settings.row.toNat (Nat.succ_le_of_lt earlier)
  rw [Nat.mul_succ] at row_fits
  omega

theorem Listable.edge_of_uncovered (listable : s.Listable)
    (uncovered : Listing.coveredStop? s x = none) (rows : s.RowEdge settings x) :
    s.Edge settings x := by
  intro a before
  unfold limit
  cases covered : Listing.coveredStop? s a with
  | none => exact rows a before covered
  | some stop =>
    obtain ⟨r, covers, inside, rfl⟩ := covers_of_coveredStop? covered
    by_contra further
    have inside_too : r.contains x = true := AddressRange.contains_iff.2
      ⟨Std.le_trans (AddressRange.contains_iff.1 inside).1 (Std.le_of_lt before),
        Std.not_le.1 further⟩
    rw [listable.not_covers uncovered covers] at inside_too
    cases inside_too

theorem Listable.edge_of_start (listable : s.Listable) (covers : s.Covers r)
    (inside : r.contains p = true) : s.Edge settings r.start := by
  intro a before
  unfold limit
  cases covered : Listing.coveredStop? s a with
  | none => exact listable.rowEdge_of_marks covers.marks a before covered
  | some stop =>
    obtain ⟨r', covers', inside', rfl⟩ := covers_of_coveredStop? covered
    have from_start := (AddressRange.contains_iff.1 inside').1
    by_contra further
    -- The other range would hold the start of this one as well.
    have both : r'.contains r.start = true := AddressRange.contains_iff.2
      ⟨Std.le_trans from_start (Std.le_of_lt before), Std.not_le.1 further⟩
    have same := listable.covers_unique covers covers' (AddressRange.contains_start inside) both
    rw [same] at from_start
    exact Std.not_le_of_gt before from_start

theorem Listable.edge_of_stop (listable : s.Listable) (covers : s.Covers r)
    (inside : r.contains p = true) : s.Edge settings r.stop := by
  intro a before
  by_cases reached : r.start ≤ a
  · have covered :=
      listable.coveredStop?_of_covers covers (AddressRange.contains_iff.2 ⟨reached, before⟩)
    rw [limit, covered]
    exact Std.le_refl _
  · have within : s.limit settings a ≤ r.start :=
      listable.edge_of_start covers inside a (Std.not_le.1 reached)
    exact Std.le_trans within
      (Std.le_of_lt (AddressRange.contains_iff.1 (AddressRange.contains_start inside)).2)

/-- The anchor moves up to a place that no unit passes. -/
theorem Listable.raiseAnchor_edge (listable : s.Listable)
    (uncovered : Listing.coveredStop? s p = none) {fuel : Nat} {anchor : Word}
    (reached : anchor ≤ p) (enough : p.toNat - anchor.toNat ≤ fuel)
    (rows : s.RowEdge settings anchor) :
    anchor ≤ Listing.raiseAnchor s p fuel anchor ∧ Listing.raiseAnchor s p fuel anchor ≤ p ∧
      s.Edge settings (Listing.raiseAnchor s p fuel anchor) := by
  have arrived {anchor : Word} (reached : anchor ≤ p) (there : p ≤ anchor)
      (rows : s.RowEdge settings anchor) : s.Edge settings anchor := by
    rw [Std.le_antisymm reached there] at rows ⊢
    exact listable.edge_of_uncovered uncovered rows
  induction fuel generalizing anchor with
  | zero =>
    have there : p ≤ anchor := UInt64.le_iff_toNat_le.2 (by omega)
    exact ⟨Std.le_refl _, reached, arrived reached there rows⟩
  | succ fuel ih =>
    unfold Listing.raiseAnchor
    by_cases before : anchor < p
    · rw [if_pos before]
      cases covered : Listing.coveredStop? s anchor with
      | none => exact ⟨Std.le_refl _, reached, listable.edge_of_uncovered covered rows⟩
      | some stop =>
        obtain ⟨r, covers, inside, rfl⟩ := covers_of_coveredStop? covered
        obtain ⟨from_start, to_stop⟩ := AddressRange.contains_iff.1 inside
        have within : r.stop ≤ p := by
          by_contra further
          have inside_too : r.contains p = true := AddressRange.contains_iff.2
            ⟨Std.le_trans from_start reached, Std.not_le.1 further⟩
          rw [listable.not_covers uncovered covers] at inside_too
          cases inside_too
        have closer : p.toNat - r.stop.toNat ≤ fuel := by
          rw [UInt64.lt_iff_toNat_lt] at to_stop
          omega
        have edge : s.Edge settings r.stop := listable.edge_of_stop covers inside
        obtain ⟨raised, below, last⟩ := ih within closer edge.rows
        simp only [to_stop, within, decide_true, Bool.and_true, if_true]
        exact ⟨Std.le_trans (Std.le_of_lt to_stop) raised, below, last⟩
    · rw [if_neg before]
      exact ⟨Std.le_refl _, reached, arrived reached (Std.not_lt.1 before) rows⟩

end Space

end BinaryAtlas
