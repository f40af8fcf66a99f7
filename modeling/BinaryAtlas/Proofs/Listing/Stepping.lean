import BinaryAtlas.Proofs.Listing.Walking

/-!
What a cursor tells of its next steps, and how far they lead. A valid address without bytes is where
going forward ends, and where going back into its row fails.
-/

set_option autoImplicit false

namespace BinaryAtlas

namespace Listing

variable {p anchor : Word}

theorem raiseAnchor_within (s : Space) (fuel : Nat) (below : anchor ≤ p) :
    anchor ≤ raiseAnchor s p fuel anchor ∧ raiseAnchor s p fuel anchor ≤ p := by
  induction fuel generalizing anchor with
  | zero => exact ⟨Std.le_refl _, below⟩
  | succ fuel ih =>
    unfold raiseAnchor
    split
    · split
      · split
        · rename_i raised
          obtain ⟨further, within⟩ := Bool.and_eq_true_iff.1 raised
          obtain ⟨low, high⟩ := ih (of_decide_eq_true within)
          exact ⟨Std.le_trans (Std.le_of_lt (of_decide_eq_true further)) low, high⟩
        · exact ⟨Std.le_refl _, below⟩
      · exact ⟨Std.le_refl _, below⟩
    · exact ⟨Std.le_refl _, below⟩

end Listing

namespace Space

variable {s : Space} {settings : ListingSettings} {a p q u : Word} {unit : ListingUnit}

/-- A valid address where nothing can be listed: no block, no variable, and no bytes for a row. -/
structure Hole (s : Space) (settings : ListingSettings) (a : Word) : Prop where
  valid : s.isValid a = true
  uncoded : Listing.codeBlockAt? s a = none
  unnamed : s.metadata.dataVariables.get? a = none
  unread : s.read a (Listing.rowStop s settings a - a).toNat = []

theorem unitAt?_eq_none_iff (valid : s.isValid a = true) :
    Listing.unitAt? s settings a = none ↔ s.Hole settings a := by
  constructor
  · intro missing
    cases coded : Listing.codeBlockAt? s a with
    | some entry => simp [Listing.unitAt?, valid, coded] at missing
    | none =>
      cases named : s.metadata.dataVariables.get? a with
      | some v => simp [Listing.unitAt?, valid, coded, named] at missing
      | none =>
        refine ⟨valid, coded, named, ?_⟩
        simpa [Listing.unitAt?, valid, coded, named, Listing.rowUnit?] using missing
  · rintro ⟨-, uncoded, unnamed, unread⟩
    simp [Listing.unitAt?, valid, uncoded, unnamed, Listing.rowUnit?, unread]

/-- What can be listed lies ahead of its start. -/
theorem Walkable.unit_onward (walkable : s.Walkable)
    (shown : Listing.unitAt? s settings a = some unit) :
    s.isValid a = true ∧ unit.start = a ∧ a < unit.stop := by
  by_cases valid : s.isValid a = true
  · refine ⟨valid, ?_⟩
    cases coded : Listing.codeBlockAt? s a with
    | some entry =>
      obtain ⟨function, b, architecture⟩ := entry
      obtain ⟨own, same, start, stop⟩ := walkable.unitAt?_code settings valid coded
      obtain rfl := Option.some.inj (shown.symm.trans same)
      have fits := walkable.stepLength_fits (codeBlockAt?_eq_some_iff.1 coded).1
        (AddressRange.contains_iff.1 (codeBlock_covers coded).2).2
      exact ⟨start, stop ▸ fits.1⟩
    | none =>
      cases named : s.metadata.dataVariables.get? a with
      | some v =>
        obtain rfl := walkable.filed named
        simp only [Listing.unitAt?, valid, coded, named, Bool.not_true, Bool.false_eq_true,
          if_false, Option.some.injEq] at shown
        subst shown
        exact ⟨rfl, (AddressRange.contains_iff.1 (variable_holds_start valid)).2⟩
      | none =>
        simp only [Listing.unitAt?, valid, coded, named, Bool.not_true, Bool.false_eq_true,
          if_false, Option.map_eq_some_iff] at shown
        obtain ⟨⟨stop, line⟩, row, rfl⟩ := shown
        exact ⟨rfl, (walkable.rowUnit?_within valid row).1⟩
  · simp [Listing.unitAt?, valid] at shown

theorem Placed.exists_unit_or_hole (placed : s.Placed) (settings : ListingSettings)
    (valid : s.isValid a = true) :
    (∃ unit, Listing.unitAt? s settings a = some unit ∧ unit.start = a ∧ a < unit.stop) ∨
      Listing.unitAt? s settings a = none ∧ s.Hole settings a := by
  cases shown : Listing.unitAt? s settings a with
  | none => exact .inr ⟨rfl, (unitAt?_eq_none_iff valid).1 shown⟩
  | some unit => exact .inl ⟨unit, rfl, (placed.walkable.unit_onward shown).2⟩

/-- Nothing is read where nothing is valid. Segments see to that, and so does any storage that is
not too large and answers with what it holds. -/
theorem isValid_of_read (stored : s.backend = .raw → s.storage.Truthful ∧
      s.storage.size < 0x10000000000000000) {length : Nat} (bytes : s.read a length ≠ []) :
    s.isValid a = true := by
  cases backend : s.backend with
  | raw =>
    obtain ⟨truthful, small⟩ := stored backend
    rw [read, backend, Backend.read, truthful, Storage.slice] at bytes
    rw [isValid_raw backend, UInt64.lt_iff_toNat_lt, Storage.length, Word.toNat_ofNatCapped]
    have within : a.toNat < s.storage.contents.length := by
      by_contra beyond
      exact bytes (by rw [List.drop_eq_nil_of_le (Nat.not_lt.1 beyond), List.take_nil])
    unfold Storage.size at small ⊢
    omega
  | mapped label =>
    rw [isValid_mapped backend]
    by_contra unmapped
    have nothing : s.map.span? a = none := by
      simpa [SegmentMap.isValid, SegmentMap.span?_eq_none_iff] using unmapped
    rw [read, backend, Backend.read, SegmentMap.read, nothing] at bytes
    exact bytes rfl

/-- What stepping relies on. Valid addresses may lack bytes, blocks may lie where nothing is mapped,
and blocks and variables may meet. -/
structure Steppable (s : Space) : Prop extends Placed s where
  variableStarts : ∀ {v}, v ∈ s.metadata.dataVariables.values → s.isValid v.address = true
  bounded : ∀ {a length}, s.read a length ≠ [] → s.isValid a = true

theorem Steppable.stepLength_unmapped (steppable : s.Steppable) {architecture : Architecture}
    (known : s.architecture = some architecture) {stop : Word} (unmapped : s.isValid a = false) :
    Listing.stepLength s architecture a stop = 1 := by
  have nothing : Listing.codeBytes s architecture a stop = [] := by
    by_contra bytes
    have mapped := steppable.bounded bytes
    rw [unmapped] at mapped
    cases mapped
  have empty : (architecture.decode [] a).length = 0 :=
    Nat.le_zero.1 (steppable.decodes known [] a)
  rw [Listing.stepLength, nothing, empty]
  decide

/-- Looked for from below, the instruction at a valid address begins at a valid one. -/
theorem Steppable.instructionStart_valid (steppable : s.Steppable) {architecture : Architecture}
    (known : s.architecture = some architecture) {stop current : Word} {fuel : Nat}
    (inside : p < stop) (valid : s.isValid p = true) (below : current ≤ p) :
    let first := Listing.instructionStart s architecture stop p fuel current
    current ≤ first ∧ first ≤ p ∧ s.isValid first = true := by
  induction fuel generalizing current with
  | zero => exact ⟨below, Std.le_refl _, valid⟩
  | succ fuel ih =>
    have before : current < stop := Std.lt_of_le_of_lt below inside
    obtain ⟨further, -⟩ := steppable.walkable.stepLength_fits known before
    unfold Listing.instructionStart
    rw [if_pos before]
    by_cases passed : p < current + Listing.stepLength s architecture current stop
    · simp only [if_pos passed]
      refine ⟨Std.le_refl _, below, ?_⟩
      by_contra unmapped
      -- Over unmapped addresses it goes one by one, so it cannot have passed `p`.
      rw [Bool.not_eq_true] at unmapped
      rw [steppable.stepLength_unmapped known unmapped] at passed further
      rw [show current = p by grind, valid] at unmapped
      cases unmapped
    · simp only [if_neg passed]
      obtain ⟨low, high, found⟩ := ih (Std.not_lt.1 passed)
      exact ⟨Std.le_trans (Std.le_of_lt further) low, high, found⟩

/-- Going up from a place below leads to the unit that reaches over an address, or into a hole. -/
theorem Placed.walkTo?_cases (placed : s.Placed) {fuel : Nat} {current : Word}
    (below : current ≤ p) (mapped : ∀ a, current ≤ a → a ≤ p → s.isValid a = true)
    (enough : p.toNat - current.toNat < fuel) :
    (∃ u unit, Listing.walkTo? s settings p fuel current = some u ∧ u ≤ p ∧
        Listing.unitAt? s settings u = some unit) ∨
      Listing.walkTo? s settings p fuel current = none ∧
        ∃ q, current ≤ q ∧ q ≤ p ∧ s.Hole settings q := by
  induction fuel generalizing current with
  | zero => omega
  | succ fuel ih =>
    unfold Listing.walkTo?
    rw [if_pos below]
    rcases placed.exists_unit_or_hole settings (mapped current (Std.le_refl _) below) with
      ⟨unit, shown, -, further⟩ | ⟨missing, hole⟩
    · by_cases passed : p < unit.stop
      · exact .inl ⟨current, unit, by simp [shown, passed], below, shown⟩
      · have stop_below := Std.not_lt.1 passed
        have := UInt64.lt_iff_toNat_lt.1 further
        have := UInt64.le_iff_toNat_le.1 stop_below
        have onward := ih stop_below
          (fun a behind => mapped a (Std.le_trans (Std.le_of_lt further) behind)) (by omega)
        simp only [shown, if_neg passed]
        refine onward.imp_right fun refused => ?_
        obtain ⟨nothing, q, behind, rest⟩ := refused
        exact ⟨nothing, q, Std.le_trans (Std.le_of_lt further) behind, rest⟩
    · exact .inr ⟨by simp [missing], current, Std.le_refl _, below, hole⟩

/-- The search for a row begins no lower than the row does. -/
theorem Placed.walkFrom_cases (placed : s.Placed) (settings : ListingSettings) {first : Word}
    (below : first ≤ p) (mapped : ∀ a, first ≤ a → a ≤ p → s.isValid a = true) :
    let anchor := Listing.raiseAnchor s p p.toNat (max (p - p % settings.row) first)
    (∃ u unit, Listing.walkTo? s settings p ((p - anchor).toNat + 1) anchor = some u ∧ u ≤ p ∧
        Listing.unitAt? s settings u = some unit) ∨
      Listing.walkTo? s settings p ((p - anchor).toNat + 1) anchor = none ∧
        ∃ q, p - p % settings.row ≤ q ∧ q ≤ p ∧ s.Hole settings q := by
  intro anchor
  have place := toNat_rowStart p settings.row
  have row_below : p - p % settings.row ≤ p := UInt64.le_iff_toNat_le.2 (by omega)
  obtain ⟨low, high⟩ : max (p - p % settings.row) first ≤ anchor ∧ anchor ≤ p :=
    Listing.raiseAnchor_within s p.toNat (Std.max_le_iff.2 ⟨row_below, below⟩)
  obtain ⟨row_low, first_low⟩ := Std.max_le_iff.1 low
  have gap := (Word.sub?_of_le (UInt64.le_iff_toNat_le.1 high)).2
  refine (placed.walkTo?_cases high
    (fun a behind => mapped a (Std.le_trans first_low behind)) (by omega)).imp_right ?_
  exact fun ⟨nothing, q, behind, rest⟩ => ⟨nothing, q, Std.le_trans row_low behind, rest⟩

/-- A step back to a valid address finds a unit, unless there is a hole in the row up to it. -/
theorem Steppable.unitStart?_cases (steppable : s.Steppable) (settings : ListingSettings)
    (valid : s.isValid p = true) :
    (∃ u unit, Listing.unitStart? s settings p = some u ∧ u ≤ p ∧
        Listing.unitAt? s settings u = some unit) ∨
      Listing.unitStart? s settings p = none ∧
        ∃ q, p - p % settings.row ≤ q ∧ q ≤ p ∧ s.Hole settings q := by
  -- Only a hole cannot be listed, and it has no block and no variable.
  have listed {u : Word} (u_valid : s.isValid u = true) (other : ¬ s.Hole settings u) :
      ∃ unit, Listing.unitAt? s settings u = some unit :=
    Option.ne_none_iff_exists'.1 (mt (unitAt?_eq_none_iff u_valid).1 other)
  unfold Listing.unitStart?
  simp only [valid, Bool.not_true, Bool.false_eq_true, if_false]
  cases coded : Listing.codeBlockAt? s p with
  | some entry =>
    obtain ⟨function, b, architecture⟩ := entry
    obtain ⟨known, held⟩ := codeBlockAt?_eq_some_iff.1 coded
    obtain ⟨from_start, to_stop⟩ : b.start ≤ p ∧ p < b.stop :=
      AddressRange.contains_iff.1 (codeBlock_covers coded).2
    obtain ⟨low, high, found⟩ := steppable.instructionStart_valid known to_stop valid from_start
    obtain ⟨unit, shown⟩ := listed found fun hole => by
      obtain ⟨function', b', here⟩ :=
        codeBlockAt?_within coded low (Std.lt_of_le_of_lt high to_stop)
      rw [hole.uncoded] at here
      cases here
    exact .inl ⟨_, unit, rfl, high, shown⟩
  | none =>
    cases named : s.variableContaining? p with
    | some v =>
      obtain ⟨member, inside⟩ := variableContaining?_eq_some named
      obtain ⟨key, held⟩ := (Table.mem_values_iff _ v).1 member
      obtain rfl := steppable.filed held
      obtain ⟨unit, shown⟩ := listed (steppable.variableStarts member) fun hole => by
        rw [hole.unnamed] at held
        cases held
      exact .inl ⟨v.address, unit, rfl, (AddressRange.contains_iff.1 inside).1, shown⟩
    | none =>
      obtain ⟨below, mapped⟩ := steppable.segmentStart_mapped valid
      exact steppable.walkFrom_cases settings below mapped

end Space

namespace ListingCursor

variable {s : Space} {settings : ListingSettings} {c : ListingCursor} {u : Word}
  {unit : ListingUnit}

/-- A fresh cursor and all that searching and stepping make of it. -/
inductive Met (s : Space) (settings : ListingSettings) : ListingCursor → Prop where
  | fresh : Met s settings (ofStart s settings)
  | sought {c : ListingCursor} (met : Met s settings c) (a : Word) : Met s settings (c.seek s a)
  | advanced {c : ListingCursor} (met : Met s settings c) : Met s settings (c.next s).1
  | retreated {c : ListingCursor} (met : Met s settings c) : Met s settings (c.previous s).1

/-- The cursor is at a unit, unless it has left them all behind. -/
def AtUnit (s : Space) (settings : ListingSettings) (c : ListingCursor) : Prop :=
  c.settings = settings ∧ (c.pastEnd = false →
    ∃ u unit, Listing.unitAt? s settings u = some unit ∧ c = ofUnit settings unit)

theorem atUnit_enter (same : c.settings = settings)
    (shown : Listing.unitAt? s settings u = some unit) : AtUnit s settings (c.enter unit) :=
  ⟨same, fun _ => ⟨u, unit, shown, by simp [enter, ofUnit, same]⟩⟩

theorem atUnit_leave (same : c.settings = settings) (a : Word) : AtUnit s settings (c.leave a) :=
  ⟨same, fun inside => Bool.noConfusion inside⟩

theorem atUnit_seek (same : c.settings = settings) (a : Word) :
    AtUnit s settings (c.seek s a) := by
  unfold seek
  simp only
  split
  · rename_i unit found
    obtain ⟨u, -, shown⟩ := Option.bind_eq_some_iff.1 found
    exact atUnit_enter same (same ▸ shown)
  · exact atUnit_leave same _

theorem atUnit_next (atUnit : AtUnit s settings c) : AtUnit s settings (c.next s).1 := by
  unfold next
  split
  · exact atUnit
  · split
    · rename_i unit found
      obtain ⟨u, -, shown⟩ := Option.bind_eq_some_iff.1 found
      exact atUnit_enter atUnit.1 (atUnit.1 ▸ shown)
    · exact atUnit_leave atUnit.1 _

/-- A step forward leads up. -/
theorem AtUnit.next_ahead (walkable : s.Walkable) (atUnit : AtUnit s settings c)
    (moved : (c.next s).2 = true) : c.address < (c.next s).1.address := by
  obtain ⟨-, inside⟩ := atUnit
  unfold next at moved ⊢
  split at moved
  · cases moved
  · rename_i left
    obtain ⟨u, unit, shown, rfl⟩ := inside (by simpa using left)
    obtain ⟨-, start, further⟩ := walkable.unit_onward shown
    rw [if_neg left]
    split at moved
    · rename_i unit' found
      obtain ⟨v, after, shown'⟩ := Option.bind_eq_some_iff.1 found
      have behind := Space.le_of_nextValid? walkable.segmentsFiled after
      show unit.start < unit'.start
      rw [start, (walkable.unit_onward shown').2.1]
      exact Std.lt_of_lt_of_le further behind
    · cases moved

theorem Met.atUnit (met : Met s settings c) : AtUnit s settings c := by
  induction met with
  | fresh => exact atUnit_seek rfl s.start
  | sought _ a ih => exact atUnit_seek ih.1 a
  | advanced _ ih => exact atUnit_next ih
  | @retreated c _ ih =>
    unfold previous
    split
    · rename_i unit found
      obtain ⟨u, -, shown⟩ := Option.bind_eq_some_iff.1 found
      exact atUnit_enter ih.1 (ih.1 ▸ shown)
    · exact ih

/-- What a cursor tells of its next steps. -/
structure Foretells (s : Space) (c : ListingCursor) : Prop where
  /-- A step forward that succeeds was announced, and leads up. -/
  next_announced : (c.next s).2 = true → c.hasNext s = true ∧ c.address < (c.next s).1.address
  /-- One that was announced fails exactly at a hole. -/
  next_missing : c.hasNext s = true → ((c.next s).2 = false ↔
    ∃ v, Listing.nextValid? s c.stop = some v ∧ s.Hole c.settings v)
  previous_announced : (c.previous s).2 = true →
    c.hasPrevious s = true ∧ (c.previous s).1.address < c.front s
  previous_missing : c.hasPrevious s = true → (c.previous s).2 = false →
    ∃ p, Listing.previousValid? s (c.front s) = some p ∧
      ∃ q, p - p % c.settings.row ≤ q ∧ q ≤ p ∧ s.Hole c.settings q

/-- Behind a unit comes nothing, another unit, or a hole, which counts as nothing. -/
theorem next_cases (placed : s.Placed) (settings : ListingSettings) (unit : ListingUnit) :
    (Listing.nextValid? s unit.stop = none ∧
        (ofUnit settings unit).next s = ((ofUnit settings unit).leave unit.stop, false)) ∨
      ∃ v, Listing.nextValid? s unit.stop = some v ∧
        ((∃ unit', Listing.unitAt? s settings v = some unit' ∧
            (ofUnit settings unit).next s = (ofUnit settings unit', true)) ∨
          s.Hole settings v ∧
            (ofUnit settings unit).next s = ((ofUnit settings unit).leave unit.stop, false)) := by
  cases after : Listing.nextValid? s unit.stop with
  | none => exact .inl ⟨rfl, next_last after⟩
  | some v =>
    refine .inr ⟨v, rfl, ?_⟩
    rcases placed.exists_unit_or_hole settings (placed.nextValid?_eq_some after).2.1 with
      ⟨unit', shown, -⟩ | ⟨missing, hole⟩
    · exact .inl ⟨unit', shown, next_eq after shown⟩
    · exact .inr ⟨hole, by simp [next, ofUnit, after, missing]⟩

theorem AtUnit.next_foretold (placed : s.Placed) (atUnit : AtUnit s settings c) :
    ((c.next s).2 = true → c.hasNext s = true ∧ c.address < (c.next s).1.address) ∧
      (c.hasNext s = true → ((c.next s).2 = false ↔
        ∃ v, Listing.nextValid? s c.stop = some v ∧ s.Hole settings v)) := by
  obtain ⟨-, inside⟩ := atUnit
  cases left : c.pastEnd with
  | true => simp [next, hasNext, left]
  | false =>
    obtain ⟨u, unit, shown, rfl⟩ := inside left
    obtain ⟨-, start, further⟩ := placed.walkable.unit_onward shown
    have stop : (ofUnit settings unit).stop = unit.stop := rfl
    have announced : (ofUnit settings unit).hasNext s =
        (Listing.nextValid? s unit.stop).isSome := rfl
    rw [announced, stop]
    rcases next_cases placed settings unit with
      ⟨nothing, last⟩ | ⟨v, after, ⟨unit', shown', moved⟩ | ⟨hole, refused⟩⟩
    · simp [last, nothing]
    · obtain ⟨valid, start', -⟩ := placed.walkable.unit_onward shown'
      have behind := (placed.nextValid?_eq_some after).1
      have up : unit.start < unit'.start := by
        rw [start, start']
        exact Std.lt_of_lt_of_le further behind
      have listed : ¬ s.Hole settings v := fun hole => by
        rw [(Space.unitAt?_eq_none_iff valid).2 hole] at shown'
        cases shown'
      rw [moved, after]
      simpa [listed, ofUnit] using up
    · simpa [refused, after] using hole

theorem AtUnit.previous_foretold (steppable : s.Steppable) (atUnit : AtUnit s settings c) :
    ((c.previous s).2 = true →
        c.hasPrevious s = true ∧ (c.previous s).1.address < c.front s) ∧
      (c.hasPrevious s = true → (c.previous s).2 = false →
        ∃ p, Listing.previousValid? s (c.front s) = some p ∧
          ∃ q, p - p % settings.row ≤ q ∧ q ≤ p ∧ s.Hole settings q) := by
  obtain ⟨rfl, inside⟩ := atUnit
  have within : c.front s ≤ s.stop := by
    unfold front
    split
    · exact Std.le_refl _
    · rename_i left
      obtain ⟨u, unit, shown, here⟩ := inside (by simpa using left)
      obtain ⟨valid, start, -⟩ := steppable.walkable.unit_onward shown
      have address : c.address = u := by rw [here, ← start]; rfl
      exact address ▸ Std.le_of_lt (Space.lt_stop valid)
  have greatest := Space.previousValid?_greatest steppable.map within
  cases below : Listing.previousValid? s (c.front s) with
  | none => simp [previous, hasPrevious, below]
  | some p =>
    rw [below] at greatest
    obtain ⟨before, valid⟩ := greatest.1
    rcases steppable.unitStart?_cases c.settings valid with
      ⟨u, unit, found, low, shown⟩ | ⟨missing, hole⟩
    · have start := (steppable.walkable.unit_onward shown).2.1
      have down := Std.lt_of_le_of_lt low before
      simp [previous, hasPrevious, below, found, shown, enter, start, down]
    · simpa [previous, hasPrevious, below, missing] using hole

theorem AtUnit.foretells (steppable : s.Steppable) (atUnit : AtUnit s settings c) :
    Foretells s c := by
  obtain ⟨announced, missing⟩ := atUnit.next_foretold steppable.toPlaced
  obtain ⟨announced', missing'⟩ := atUnit.previous_foretold steppable
  rw [← atUnit.1] at missing missing'
  exact ⟨announced, missing, announced', missing'⟩

/-- From a unit on, a walk holds all that is valid up to where it ends, and only a hole ends it
early. -/
theorem unit_covers (placed : s.Placed) (shown : Listing.unitAt? s settings u = some unit) :
    ∃ units last, Walks (·.next s) (ofUnit settings unit) units last ∧
      unit.stop ≤ last.address ∧ ∀ a, s.isValid a = true → u ≤ a →
        (a < last.address → ∃ w ∈ units, s.Holds settings w a) ∧
          (last.address ≤ a → ∃ q, last.address ≤ q ∧ q ≤ a ∧ s.Hole settings q) := by
  induction gap : s.stop.toNat - u.toNat using Nat.strongRecOn generalizing u unit with
  | ind gap ih =>
    obtain ⟨valid, start, further⟩ := placed.walkable.unit_onward shown
    have here : (ofUnit settings unit).here = [u] := by simp [ListingCursor.here, ofUnit, start]
    have held {a : Word} (behind : u ≤ a) (before : a < unit.stop) : s.Holds settings u a :=
      ⟨unit, shown, behind, before⟩
    rcases next_cases placed settings unit with
      ⟨nothing, refused⟩ | ⟨v, after, ⟨unit', shown', moved⟩ | ⟨hole, refused⟩⟩
    · refine ⟨_, _, .stop refused, Std.le_refl _, fun a mapped behind =>
        ⟨fun before => ?_, fun past => ?_⟩⟩
      · exact ⟨u, by simp [here], held behind before⟩
      · exact absurd past (Std.not_le_of_gt (placed.nextValid?_eq_none nothing mapped))
    · obtain ⟨behind_v, valid_v, nearest⟩ := placed.nextValid?_eq_some after
      have := UInt64.lt_iff_toNat_lt.1 (Std.lt_of_lt_of_le further behind_v)
      have := UInt64.lt_iff_toNat_lt.1 (Space.lt_stop valid)
      obtain ⟨units, last, walks, reach, covers⟩ :=
        ih (s.stop.toNat - v.toNat) (by omega) shown' rfl
      have ahead := (placed.walkable.unit_onward shown').2.2
      have above : unit.stop ≤ last.address :=
        Std.le_trans behind_v (Std.le_trans (Std.le_of_lt ahead) reach)
      refine ⟨_, last, .move moved walks, above, fun a mapped behind => ?_⟩
      by_cases before : a < unit.stop
      · refine ⟨fun _ => ⟨u, by simp [here], held behind before⟩, fun past => ?_⟩
        exact absurd before (Std.not_lt_of_ge (Std.le_trans above past))
      · obtain ⟨inside, outside⟩ := covers a mapped (nearest a (Std.not_lt.1 before) mapped)
        refine ⟨fun before => ?_, outside⟩
        obtain ⟨w, member, holds⟩ := inside before
        exact ⟨w, List.mem_append_right _ member, holds⟩
    · obtain ⟨behind_v, -, nearest⟩ := placed.nextValid?_eq_some after
      refine ⟨_, _, .stop refused, Std.le_refl _, fun a mapped behind =>
        ⟨fun before => ?_, fun past => ?_⟩⟩
      · exact ⟨u, by simp [here], held behind before⟩
      · exact ⟨v, behind_v, nearest a past mapped, hole⟩

/-- A fresh cursor is at the first valid address, if that one can be listed. -/
theorem ofStart_cases (steppable : s.Steppable) (settings : ListingSettings)
    (valid : s.isValid s.start = true) :
    (∃ unit, Listing.unitAt? s settings s.start = some unit ∧
        ofStart s settings = ofUnit settings unit) ∨
      s.Hole settings s.start ∧ (ofStart s settings).pastEnd = true ∧
        (ofStart s settings).address = s.start := by
  have first {q : Word} (mapped : s.isValid q = true) (below : q ≤ s.start) : q = s.start :=
    Std.le_antisymm below (Space.start_least steppable.map mapped).2
  rcases steppable.unitStart?_cases settings valid with
    ⟨u, unit, found, below, shown⟩ | ⟨missing, q, -, below, hole⟩
  · obtain rfl := first (steppable.walkable.unit_onward shown).1 below
    exact .inl ⟨unit, shown, by simp [ofStart, reset, seek, valid, found, shown, enter, ofUnit]⟩
  · rw [← first hole.valid below]
    exact .inr ⟨hole, by simp [ofStart, reset, seek, valid, missing, leave, first hole.valid below]⟩

theorem fresh_covers (steppable : s.Steppable) (settings : ListingSettings) :
    ∃ units last, Walks (·.next s) (ofStart s settings) units last ∧
      ∀ a, s.isValid a = true →
        (a < last.address → ∃ u ∈ units, s.Holds settings u a) ∧
          (last.address ≤ a → ∃ q, last.address ≤ q ∧ q ≤ a ∧ s.Hole settings q) := by
  have stuck (left : (ofStart s settings).pastEnd = true) :
      Walks (·.next s) (ofStart s settings) (ofStart s settings).here (ofStart s settings) :=
    .stop (by simp [next, left])
  have least {a : Word} (mapped : s.isValid a = true) := Space.start_least steppable.map mapped
  by_cases valid : s.isValid s.start = true
  · rcases ofStart_cases steppable settings valid with
      ⟨unit, shown, fresh⟩ | ⟨hole, left, place⟩
    · obtain ⟨units, last, walks, -, covers⟩ := unit_covers steppable.toPlaced shown
      exact ⟨units, last, fresh ▸ walks, fun a mapped => covers a mapped (least mapped).2⟩
    · refine ⟨_, _, stuck left, fun a mapped => ?_⟩
      rw [place]
      refine ⟨fun before => absurd before (Std.not_lt_of_ge (least mapped).2), fun past => ?_⟩
      exact ⟨s.start, Std.le_refl _, past, hole⟩
  · have nothing (a : Word) (mapped : s.isValid a = true) : False := valid (least mapped).1
    have left : (ofStart s settings).pastEnd = true := by
      by_contra inside
      obtain ⟨u, unit, shown, -⟩ := (Met.fresh (s := s)).atUnit.2 (by simpa using inside)
      exact nothing u (steppable.walkable.unit_onward shown).1
    exact ⟨_, _, stuck left, fun a mapped => (nothing a mapped).elim⟩

/-- Wherever a cursor has come, it tells which steps lead on, and they lead up or down, except for
holes: a step forward fails at one, and a step back may where one is in the row. A walk from a fresh
cursor leaves out nothing that can be read, up to the first hole behind a unit. -/
theorem steps_foretold (steppable : s.Steppable) (settings : ListingSettings) :
    (∀ c, Met s settings c → Foretells s c) ∧
      ∃ units last, Walks (·.next s) (ofStart s settings) units last ∧
        ∀ a, s.read a 1 ≠ [] →
          (a < last.address → ∃ u ∈ units, s.Holds settings u a) ∧
            (last.address ≤ a → ∃ q, last.address ≤ q ∧ q ≤ a ∧ s.Hole settings q) := by
  obtain ⟨units, last, walks, covers⟩ := fresh_covers steppable settings
  exact ⟨fun c met => met.atUnit.foretells steppable, units, last, walks,
    fun a bytes => covers a (steppable.bounded bytes)⟩

/-- Two segments over the same eight bytes. The first one is longer, and says how many it stores. -/
def paddedSpace (stored : Word) : Space :=
  writtenSpace (.mapped "")
    ⟨.insert (.insert .empty 0 ⟨1, ⟨0, 0x10⟩, 0, stored, .ofBits 7, true, []⟩) 0x20
      ⟨2, ⟨0x20, 0x24⟩, 0, 4, .ofBits 7, true, []⟩, .empty, .empty, .empty, 2⟩ .empty (some "Raw")

theorem paddedSpace_steppable {stored : Word}
    (made : Segment.ofLayout 0 0x10 0 stored (.ofBits 7) true =
      .ok ⟨0, ⟨0, 0x10⟩, 0, stored, .ofBits 7, true, []⟩) : (paddedSpace stored).Steppable where
  map := by
    have second : Segment.ofLayout 0x20 4 0 4 (.ofBits 7) true =
        .ok ⟨0, ⟨0x20, 0x24⟩, 0, 4, .ofBits 7, true, []⟩ := rfl
    exact SegmentMap.built_sound (.add (.add .empty made rfl) second rfl)
  filed held := nomatch held
  decodes known := nomatch known
  variableStarts member := nomatch member
  bounded := Space.isValid_of_read fun raw => Backend.noConfusion raw

/-- Beyond the stored bytes there are zeros, and the walk goes on over them. -/
theorem padding_covered :
    (paddedSpace 8).Steppable ∧
      Foretells (paddedSpace 8) ((ofStart (paddedSpace 8) fourBytes).next (paddedSpace 8)).1 ∧
      ∃ units last, Walks (·.next (paddedSpace 8)) (ofStart (paddedSpace 8) fourBytes) units last ∧
        units = [0, 4, 8, 12, 0x20] ∧ ∃ u ∈ units, (paddedSpace 8).Holds fourBytes u 13 := by
  have steppable : (paddedSpace 8).Steppable := paddedSpace_steppable rfl
  obtain ⟨foretold, units, last, walks, covers⟩ := steps_foretold steppable fourBytes
  have bounded : Walks (·.next (paddedSpace 8)) (ofStart (paddedSpace 8) fourBytes)
      (walk (·.next (paddedSpace 8)) 9 (ofStart (paddedSpace 8) fourBytes)).2 _ :=
    walks_of_walk next_inside (by decide +kernel) (by decide +kernel)
  obtain ⟨units_eq, last_eq⟩ := walks.unique bounded
  refine ⟨steppable, foretold _ (.advanced .fresh), units, last, walks,
    units_eq.symm.trans (by decide +kernel), (covers 13 (by decide +kernel)).1 ?_⟩
  rw [← last_eq]
  decide +kernel

/-- Where the storage ends before the segment says, the walk ends as well, although a next unit is
announced and there are bytes behind. -/
theorem hole_ends_walk :
    (paddedSpace 12).Steppable ∧
      (∃ c, Met (paddedSpace 12) fourBytes c ∧ c.hasNext (paddedSpace 12) = true ∧
        (c.next (paddedSpace 12)).2 = false) ∧
      (∃ last, Walks (·.next (paddedSpace 12)) (ofStart (paddedSpace 12) fourBytes) [0, 4] last) ∧
      (paddedSpace 12).read 0x20 1 = [1] ∧
      ∀ u ∈ [0, 4], ¬ (paddedSpace 12).Holds fourBytes u 0x20 := by
  have bounded : Walks (·.next (paddedSpace 12)) (ofStart (paddedSpace 12) fourBytes)
      (walk (·.next (paddedSpace 12)) 9 (ofStart (paddedSpace 12) fourBytes)).2 _ :=
    walks_of_walk next_inside (by decide +kernel) (by decide +kernel)
  rw [show (walk (·.next (paddedSpace 12)) 9 (ofStart (paddedSpace 12) fourBytes)).2 = [0, 4] by
    decide +kernel] at bounded
  have stops : ([0, 4].all fun u =>
      (Listing.unitAt? (paddedSpace 12) fourBytes u).all (·.stop ≤ 8)) = true := by
    decide +kernel
  refine ⟨paddedSpace_steppable rfl, ⟨_, .advanced .fresh, by decide +kernel, by decide +kernel⟩,
    ⟨_, bounded⟩, by decide +kernel, fun u member ⟨unit, shown, _, before⟩ => ?_⟩
  have below := List.all_eq_true.1 stops u member
  rw [shown] at below
  exact absurd (Std.lt_of_lt_of_le before (of_decide_eq_true below)) (by decide)

end ListingCursor

end BinaryAtlas
