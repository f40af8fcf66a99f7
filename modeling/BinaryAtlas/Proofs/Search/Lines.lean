import BinaryAtlas.Proofs.Listing.Stepping
import BinaryAtlas.Proofs.Search.Finding

/-!
Searching a listing. A search goes to the unit that holds the start of its range and on from there,
but finds what a walk over the whole listing shows in the range.
-/

set_option autoImplicit false

namespace BinaryAtlas

namespace Listing

variable {s : Space} {settings : ListingSettings} {a : Word} {line : ListingLine}

theorem address_of_segmentHeading (member : line ∈ segmentHeading s settings a) :
    line.address = a := by
  unfold segmentHeading at member
  split at member
  · rw [List.mem_singleton.1 member]
  · cases member

theorem address_of_functionHeading (member : line ∈ functionHeading s settings a) :
    line.address = a := by
  unfold functionHeading at member
  split at member
  · rcases List.mem_pair.1 member with rfl | rfl <;> rfl
  · cases member

theorem address_of_codeUnit (function : Word) (b : BasicBlock) (architecture : Architecture) :
    (codeUnit s settings a function b architecture).2.address = a := by
  unfold codeUnit
  simp only
  split <;> rfl

/-- All lines of a unit are at its start. -/
theorem address_of_mem_lines {unit : ListingUnit} (shown : unitAt? s settings a = some unit)
    (member : line ∈ unit.lines) : line.address = a := by
  have kept {own : List ListingLine} {most : Nat} (each : ∀ line ∈ own, line.address = a)
      (member : line ∈ (segmentHeading s settings a ++ own).take most) : line.address = a :=
    (List.mem_append.1 (List.mem_of_mem_take member)).elim address_of_segmentHeading (each line)
  by_cases valid : s.isValid a = true
  · cases coded : codeBlockAt? s a with
    | some entry =>
      obtain ⟨function, b, architecture⟩ := entry
      simp only [unitAt?, valid, coded, Bool.not_true, Bool.false_eq_true, if_false,
        Option.some.injEq] at shown
      subst shown
      refine kept (fun line own => ?_) member
      rcases List.mem_append.1 own with heading | code
      · split at heading
        · exact address_of_functionHeading heading
        · cases heading
      · rw [List.mem_singleton.1 code]
        exact address_of_codeUnit ..
    | none =>
      cases named : s.metadata.dataVariables.get? a with
      | some v =>
        simp only [unitAt?, valid, coded, named, Bool.not_true, Bool.false_eq_true, if_false,
          Option.some.injEq] at shown
        subst shown
        exact kept (fun line own => by rw [List.mem_singleton.1 own]; rfl) member
      | none =>
        simp only [unitAt?, valid, coded, named, Bool.not_true, Bool.false_eq_true, if_false,
          Option.map_eq_some_iff] at shown
        obtain ⟨⟨stop, row⟩, given, rfl⟩ := shown
        refine kept (fun line own => ?_) member
        unfold rowUnit? at given
        simp only at given
        split at given
        · cases given
        · rw [List.mem_singleton.1 own, ← (Prod.mk.inj (Option.some.inj given)).2]
  · simp [unitAt?, valid] at shown

/-- The lines of the unit that begins here, if one does. -/
def linesAt (s : Space) (settings : ListingSettings) (a : Word) : List ListingLine :=
  ((unitAt? s settings a).map (·.lines)).getD []

theorem linesAt_eq {unit : ListingUnit} (shown : unitAt? s settings a = some unit) :
    linesAt s settings a = unit.lines := by
  simp [linesAt, shown]

theorem address_of_mem_linesAt (member : line ∈ linesAt s settings a) : line.address = a := by
  cases shown : unitAt? s settings a with
  | none => simp [linesAt, shown] at member
  | some unit => exact address_of_mem_lines shown (linesAt_eq shown ▸ member)

end Listing

namespace ListingCursor

variable {s : Space} {settings : ListingSettings} {c : ListingCursor} {u w a : Word}
  {unit : ListingUnit} {units : List Word} {lines lines' : List ListingLine}

/-- The lines from the unit at the cursor on, until there is no next one. -/
inductive Lists (s : Space) : ListingCursor → List ListingLine → Prop where
  | stop {c : ListingCursor} (refused : (c.next s).2 = false) : Lists s c c.lines
  | move {c after : ListingCursor} {lines : List ListingLine} (moved : c.next s = (after, true))
      (rest : Lists s after lines) : Lists s c (c.lines ++ lines)

theorem Lists.unique (lists : Lists s c lines) (lists' : Lists s c lines') : lines' = lines := by
  induction lists generalizing lines' with
  | stop refused =>
    cases lists' with
    | stop => rfl
    | move moved => simp [moved] at refused
  | move moved _ ih =>
    cases lists' with
    | stop refused => simp [moved] at refused
    | move moved' rest =>
      rw [moved] at moved'
      obtain rfl := (Prod.mk.inj moved').1
      rw [ih rest]

/-- The lines, if there are no more units than this. -/
def linesWithin (s : Space) : Nat → ListingCursor → Option (List ListingLine)
  | 0, _ => none
  | moves + 1, c =>
    match c.next s with
    | (_, false) => some c.lines
    | (after, true) => (linesWithin s moves after).map (c.lines ++ ·)

theorem lists_of_linesWithin {moves : Nat} (within : linesWithin s moves c = some lines) :
    Lists s c lines := by
  induction moves generalizing c lines with
  | zero => cases within
  | succ moves ih =>
    unfold linesWithin at within
    cases stepped : c.next s with
    | mk after more =>
      cases more with
      | false =>
        simp only [stepped, Option.some.injEq] at within
        exact within ▸ .stop (by rw [stepped])
      | true =>
        simp only [stepped, Option.map_eq_some_iff] at within
        obtain ⟨rest, shown, rfl⟩ := within
        exact .move stepped (ih shown)

theorem onward_lists (listable : s.Listable) (onward : Onward s settings u units)
    (reached : s.Reached settings u) (shown : Listing.unitAt? s settings u = some unit) :
    Lists s (ofUnit settings unit) (units.flatMap (Listing.linesAt s settings)) := by
  induction onward generalizing unit with
  | last shown' nothing =>
    obtain rfl := Option.some.inj (shown.symm.trans shown')
    have here : Lists s (ofUnit settings unit) unit.lines := .stop (by rw [next_last nothing])
    simpa [Listing.linesAt_eq shown] using here
  | more shown' after onward ih =>
    obtain rfl := Option.some.inj (shown.symm.trans shown')
    have later := reached.next shown after
    obtain ⟨unit', further, -⟩ :=
      listable.unitAt?_sits settings (listable.reached_sits later)
    rw [List.flatMap_cons, Listing.linesAt_eq shown]
    exact .move (next_eq after further) (ih later further)

/-- The units of a listing, cut in front of one of them. -/
theorem Onward.split (listable : s.Listable) (onward : Onward s settings u units)
    (reached : s.Reached settings u) (member : w ∈ units) :
    ∃ before after, units = before ++ after ∧ Onward s settings w after ∧
      ∀ x ∈ before, s.isValid x = true ∧ x < w := by
  induction onward with
  | last shown nothing =>
    obtain rfl := List.mem_singleton.1 member
    exact ⟨[], _, rfl, .last shown nothing, by simp⟩
  | @more u v unit units shown after onward ih =>
    rcases List.mem_cons.1 member with rfl | later
    · exact ⟨[], _, rfl, .more shown after onward, by simp⟩
    · have reached_v := reached.next shown after
      obtain ⟨before, rest, rfl, from_w, below⟩ := ih reached_v later
      have further := (listable.unit_fits (listable.reached_sits reached) shown).2.1
      have behind := (listable.placed.nextValid?_eq_some after).1
      have from_v := ((mem_onward_iff listable onward reached_v).1 later).2
      have first : u < w := Std.lt_of_lt_of_le further (Std.le_trans behind from_v)
      refine ⟨u :: before, rest, rfl, from_w, fun x inside => ?_⟩
      rcases List.mem_cons.1 inside with rfl | deeper
      · exact ⟨(listable.reached_sits reached).valid, first⟩
      · exact below x deeper

/-- Where a search for an address leads: to a unit that reaches beyond it and begins no later than
anything valid from there on, or past the end if nothing is. -/
theorem seek_cases (listable : s.Listable) (same : c.settings = settings) (a : Word) :
    (∃ u unit, s.Reached settings u ∧ Listing.unitAt? s settings u = some unit ∧ a < unit.stop ∧
        c.seek s a = ofUnit settings unit ∧ ∀ x, s.isValid x = true → a ≤ x → u ≤ x) ∨
      (c.seek s a).pastEnd = true ∧ ∀ x, s.isValid x = true → x < a := by
  by_cases valid : s.isValid a = true
  · obtain ⟨u, unit, reached, shown, -, below, inside, found⟩ := seek_eq listable same valid
    exact .inl ⟨u, unit, reached, shown, inside, found, fun x _ behind => Std.le_trans below behind⟩
  · cases after : Listing.nextValid? s a with
    | none =>
      refine .inr ⟨by simp [seek, valid, after, leave], fun x mapped => ?_⟩
      exact listable.placed.nextValid?_eq_none after mapped
    | some v =>
      obtain ⟨behind, v_valid, nearest⟩ := listable.placed.nextValid?_eq_some after
      obtain ⟨u, unit, reached, shown, -, below, inside, found⟩ := seek_eq listable same v_valid
      have there : c.seek s a = c.seek s v := by simp [seek, valid, after, v_valid]
      exact .inl ⟨u, unit, reached, shown, Std.lt_of_le_of_lt behind inside, there.trans found,
        fun x mapped further => Std.le_trans below (nearest x further mapped)⟩

/-- Lines come in the order of their addresses. -/
theorem onward_ascending (listable : s.Listable) (onward : Onward s settings u units)
    (reached : s.Reached settings u) :
    (units.flatMap (Listing.linesAt s settings)).Pairwise fun line line' =>
      line.address ≤ line'.address := by
  have together (u : Word) : (Listing.linesAt s settings u).Pairwise fun line line' =>
      line.address ≤ line'.address :=
    List.pairwise_of_forall_mem_list fun line member line' member' => by
      rw [Listing.address_of_mem_linesAt member, Listing.address_of_mem_linesAt member']
      exact Std.le_refl _
  induction onward with
  | @last u _ _ _ => simpa using together u
  | @more u v unit units shown after onward ih =>
    have reached_v := reached.next shown after
    rw [List.flatMap_cons, List.pairwise_append]
    refine ⟨together u, ih reached_v, fun line member line' member' => ?_⟩
    obtain ⟨w, later, there⟩ := List.mem_flatMap.1 member'
    rw [Listing.address_of_mem_linesAt member, Listing.address_of_mem_linesAt there]
    have further := (listable.unit_fits (listable.reached_sits reached) shown).2.1
    have behind := (listable.placed.nextValid?_eq_some after).1
    have from_v := ((mem_onward_iff listable onward reached_v).1 later).2
    exact Std.le_of_lt (Std.lt_of_lt_of_le further (Std.le_trans behind from_v))

theorem whole_listing (listable : s.Listable) (settings : ListingSettings) :
    ∃ units, Lists s (ofStart s settings) (units.flatMap (Listing.linesAt s settings)) ∧
      ((s.isValid s.start = true ∧ Onward s settings s.start units) ∨
        units = [] ∧ ∀ a, s.isValid a = false) := by
  by_cases valid : s.isValid s.start = true
  · have reached : s.Reached settings s.start := .first valid
    obtain ⟨units, onward⟩ := onward_exists listable reached
    obtain ⟨unit, shown, -, fresh⟩ := ofStart_eq listable settings valid
    exact ⟨units, fresh ▸ onward_lists listable onward reached shown, .inl ⟨valid, onward⟩⟩
  · have nothing (a : Word) : s.isValid a = false := by
      by_contra mapped
      exact valid (Space.start_least listable.map (by simpa using mapped)).1
    have empty : (ofStart s settings).lines = [] := by
      have missing : Listing.nextValid? s s.start = none :=
        (Space.nextValid?_least listable.map s.start).eq_none fun b wanted => by
          simp [nothing b] at wanted
      simp [ofStart, reset, seek, nothing, missing, leave]
    have left := (ofStart_left listable settings nothing).1
    have stuck : Lists s (ofStart s settings) (ofStart s settings).lines :=
      .stop (by simp [next, left])
    rw [empty] at stuck
    exact ⟨[], stuck, .inr ⟨rfl, nothing⟩⟩

end ListingCursor

namespace Search

variable {σ : Type} {watcher : SearchWatcher σ} {log : σ → List SearchMatch} {limit : Option Nat}
  {s : Space} {settings : ListingSettings} {test : ListingLine → Option SearchQuery}
  {start stop : Word} {lines : List ListingLine}

theorem lineMatches_eq_nil
    (outside : ∀ line ∈ lines, line.address < start ∨ stop ≤ line.address) :
    lineMatches test start stop lines = [] := by
  refine List.filterMap_eq_nil_iff.2 fun line member => ?_
  simpa using fun from_start before =>
    absurd (outside line member) (not_or.2 ⟨Std.not_lt_of_ge from_start, Std.not_le_of_gt before⟩)

theorem lineMatches_congr {start' stop' : Word}
    (same : ∀ line ∈ lines, (line.address < start ∨ stop ≤ line.address ↔
      line.address < start' ∨ stop' ≤ line.address)) :
    lineMatches test start stop lines = lineMatches test start' stop' lines :=
  List.filterMap_congr fun line member => by simp [same line member]

theorem lineMatches_append (test : ListingLine → Option SearchQuery) (start stop : Word)
    (lines later : List ListingLine) :
    lineMatches test start stop (lines ++ later) =
      lineMatches test start stop lines ++ lineMatches test start stop later :=
  List.filterMap_append

/-- Where lines come in order, a range can be cut anywhere. -/
theorem lineMatches_cut (test : ListingLine → Option SearchQuery)
    (ascending : lines.Pairwise fun line line' => line.address ≤ line'.address) {a b c : Word}
    (ordered : a ≤ b) (ordered' : b ≤ c) :
    lineMatches test a c lines = lineMatches test a b lines ++ lineMatches test b c lines := by
  induction lines with
  | nil => rfl
  | cons line rest ih =>
    obtain ⟨first, later⟩ := List.pairwise_cons.1 ascending
    have apart (x y : Word) : lineMatches test x y (line :: rest) =
        lineMatches test x y [line] ++ lineMatches test x y rest :=
      lineMatches_append test x y [line] rest
    rw [apart a c, apart a b, apart b c, ih later]
    by_cases before : line.address < b
    · have same : lineMatches test a c [line] = lineMatches test a b [line] :=
        lineMatches_congr (by
          simp [Std.not_le_of_gt before, Std.not_le_of_gt (Std.lt_of_lt_of_le before ordered')])
      have nothing : lineMatches test b c [line] = [] :=
        lineMatches_eq_nil (by simp [before])
      rw [same, nothing, List.nil_append, List.append_assoc]
    · have behind := Std.not_lt.1 before
      have same : lineMatches test a c [line] = lineMatches test b c [line] :=
        lineMatches_congr (by
          simp [Std.not_lt_of_ge behind, Std.not_lt_of_ge (Std.le_trans ordered behind)])
      have nothing : lineMatches test a b [line] = [] :=
        lineMatches_eq_nil (by simp [behind])
      have nothing_later : lineMatches test a b rest = [] :=
        lineMatches_eq_nil fun line' member => .inr (Std.le_trans behind (first line' member))
      simp only [same, nothing, nothing_later, List.nil_append]

/-- After what it has told already, a scan tells of these matches, as far as there is room. -/
def Adds (log : σ → List SearchMatch) (limit : Option Nat) (found : Bool) (state : σ)
    (hits : List SearchMatch) (answer : Bool × σ) : Prop :=
  answer.1 = (found || !hits.isEmpty) ∧ log answer.2 = upTo limit (log state ++ hits)

/-- Behind its range a scan tells of nothing more. -/
theorem scanLines_beyond (collects : Collects watcher log limit) {fuel : Nat}
    {cursor : ListingCursor}
    (beyond : cursor.pastEnd = true ∨ stop ≤ cursor.address ∨ fuel = 0) (meter : ProgressMeter)
    (found : Bool) (state : σ) (room : Room limit (log state).length) :
    Adds log limit found state []
      (scanLines s test start stop watcher fuel cursor meter found state) := by
  rw [Adds, List.append_nil, upTo_of_room room]
  cases fuel with
  | zero => exact ⟨by simp [scanLines], rfl⟩
  | succ fuel =>
    rw [scanLines, if_pos (by simpa using beyond)]
    exact ⟨by simp, (report_eq collects meter stop state).1⟩

/-- The lines of one unit, and what is told when the scan goes on behind it. -/
theorem scanLines_step (collects : Collects watcher log limit) {cursor : ListingCursor}
    (inside : cursor.pastEnd = false) (before : cursor.address < stop) {later : List SearchMatch}
    {fuel : Nat} (refused : (cursor.next s).2 = false → later = [])
    (moved : ∀ after, cursor.next s = (after, true) → ∀ meter found state,
      Room limit (log state).length → Adds log limit found state later
        (scanLines s test start stop watcher fuel after meter found state))
    (meter : ProgressMeter) (found : Bool) (state : σ) (room : Room limit (log state).length) :
    Adds log limit found state (lineMatches test start stop cursor.lines ++ later)
      (scanLines s test start stop watcher (fuel + 1) cursor meter found state) := by
  rw [scanLines, if_neg (by simp [inside, Std.not_le_of_gt before])]
  generalize lineMatches test start stop cursor.lines = here
  simp only
  have tells := tellMatches_cases collects here state room
  cases told : tellMatches watcher here state with
  | mk state' goes =>
    rw [told] at tells
    rcases tells with ⟨rfl, hit, full⟩ | ⟨rfl, kept, more⟩
    · exact ⟨by simp [hit], full _⟩
    · have reports := report_eq collects meter cursor.address state'
      simp only
      cases reported : meter.report watcher cursor.address state' with
      | mk meter' answer =>
        obtain ⟨state'', goes⟩ := answer
        rw [reported] at reports
        obtain ⟨same, rfl⟩ := reports
        simp only at kept same ⊢
        have room' : Room limit (log state'').length := by rwa [same, kept]
        cases stepped : cursor.next s with
        | mk after goes =>
          cases goes with
          | false =>
            obtain rfl := refused (by rw [stepped])
            have told_last := (report_eq collects meter' stop state'').1
            rw [Adds, List.append_nil, upTo_of_room more, ← kept, ← same]
            exact ⟨rfl, told_last⟩
          | true =>
            rw [Adds, ← List.append_assoc, ← kept, ← same]
            refine (moved after stepped meter' _ state'' room').imp_left
              fun answer => answer.trans ?_
            cases here <;> simp

theorem lineMatches_onward (listable : s.Listable) {u : Word} {units : List Word}
    (onward : ListingCursor.Onward s settings u units) (reached : s.Reached settings u)
    (outside : ∀ w, u ≤ w → w < start ∨ stop ≤ w) :
    lineMatches test start stop (units.flatMap (Listing.linesAt s settings)) = [] := by
  refine lineMatches_eq_nil fun line member => ?_
  obtain ⟨w, inside, there⟩ := List.mem_flatMap.1 member
  rw [Listing.address_of_mem_linesAt there]
  exact outside w ((ListingCursor.mem_onward_iff listable onward reached).1 inside).2

/-- From a unit that reaches beyond the start of the range, a scan tells of the matches in the units
from there on. -/
theorem scanLines_eq (listable : s.Listable) (collects : Collects watcher log limit) {u : Word}
    {units : List Word} {unit : ListingUnit} (onward : ListingCursor.Onward s settings u units)
    (reached : s.Reached settings u) (shown : Listing.unitAt? s settings u = some unit)
    (ahead : start < unit.stop) {fuel : Nat}
    (enough : stop.toNat < fuel + max u.toNat start.toNat) (meter : ProgressMeter) (found : Bool)
    (state : σ) (room : Room limit (log state).length) :
    Adds log limit found state
      (lineMatches test start stop (units.flatMap (Listing.linesAt s settings)))
      (scanLines s test start stop watcher fuel (.ofUnit settings unit) meter found state) := by
  induction fuel generalizing u units unit meter found state with
  | zero =>
    rw [lineMatches_onward listable onward reached fun w from_u => ?_]
    · exact scanLines_beyond collects (.inr (.inr rfl)) meter found state room
    · rw [UInt64.le_iff_toNat_le] at from_u ⊢
      rw [UInt64.lt_iff_toNat_lt]
      omega
  | succ fuel ih =>
    obtain ⟨start_eq, further, -⟩ := listable.unit_fits (listable.reached_sits reached) shown
    have address : (ListingCursor.ofUnit settings unit).address = u := start_eq
    by_cases past : stop ≤ u
    · rw [lineMatches_onward listable onward reached
        fun w from_u => .inr (Std.le_trans past from_u)]
      exact scanLines_beyond collects (.inr (.inl (address.symm ▸ past))) meter found state room
    · have before : (ListingCursor.ofUnit settings unit).address < stop :=
        address.symm ▸ Std.not_le.1 past
      cases onward with
      | last shown' nothing =>
        obtain rfl := Option.some.inj (shown.symm.trans shown')
        have refused : (ListingCursor.ofUnit settings unit).next s = _ :=
          ListingCursor.next_last nothing
        rw [List.flatMap_cons, lineMatches_append, Listing.linesAt_eq shown]
        refine scanLines_step collects rfl before (fun _ => rfl) (fun next moved => ?_) meter found
          state room
        rw [refused] at moved
        cases moved
      | @more _ v _ units shown' after onward =>
        obtain rfl := Option.some.inj (shown.symm.trans shown')
        have reached_v := reached.next shown after
        obtain ⟨behind, -⟩ := listable.placed.nextValid?_eq_some after
        obtain ⟨unit', shown_v, -, further_v, -⟩ :=
          listable.unitAt?_sits settings (listable.reached_sits reached_v)
        have goes_on := ListingCursor.next_eq after shown_v
        have ahead_v : start < unit'.stop :=
          Std.lt_trans ahead (Std.lt_of_le_of_lt behind further_v)
        rw [UInt64.lt_iff_toNat_lt] at ahead further
        rw [UInt64.le_iff_toNat_le] at behind
        rw [List.flatMap_cons, lineMatches_append, Listing.linesAt_eq shown]
        refine scanLines_step collects rfl before (fun refused => ?_) (fun next moved => ?_) meter
          found state room
        · rw [goes_on] at refused
          cases refused
        · rw [goes_on] at moved
          obtain rfl := (Prod.mk.inj moved).1
          exact fun meter found state => ih onward reached_v shown_v ahead_v (by omega) meter found
            state

/-- A search goes to where its range starts, and tells of what the whole listing shows in it. -/
theorem findInLines_eq (test : ListingLine → Option SearchQuery) (listable : s.Listable)
    (collects : Collects watcher log limit) {units : List Word}
    (whole : s.isValid s.start = true ∧ ListingCursor.Onward s settings s.start units ∨
      units = [] ∧ ∀ a, s.isValid a = false)
    (start stop : Word) (state : σ) (room : Room limit (log state).length) :
    Adds log limit false state
      (lineMatches test start stop (units.flatMap (Listing.linesAt s settings)))
      (s.findInLines start stop settings test watcher state) := by
  have valid_of_mem {w : Word} (inside : w ∈ units) : s.isValid w = true := by
    rcases whole with ⟨valid, onward⟩ | ⟨rfl, -⟩
    · have met := (ListingCursor.mem_onward_iff listable onward (.first valid)).1 inside
      exact (listable.reached_sits met.1).valid
    · cases inside
  unfold Space.findInLines
  by_cases nothing : stop ≤ start
  · rw [if_pos nothing, lineMatches_eq_nil, Adds, List.append_nil, upTo_of_room room]
    · exact ⟨rfl, rfl⟩
    · exact fun line _ => (Decidable.em (line.address < start)).imp_right fun behind =>
        Std.le_trans nothing (Std.not_lt.1 behind)
  · rw [if_neg nothing]
    have before := Std.not_le.1 nothing
    have size := UInt64.toNat_sub_of_le _ _ (Std.le_of_lt before)
    have := UInt64.lt_iff_toNat_lt.1 before
    have own : (ListingCursor.ofStart s settings).settings = settings :=
      ListingCursor.Met.fresh.atUnit.1
    rcases ListingCursor.seek_cases listable own start with
      ⟨u, unit, reached, shown, ahead, found, first⟩ | ⟨left, below⟩
    · rcases whole with ⟨valid, onward⟩ | ⟨-, invalid⟩
      · have valid_u := (listable.reached_sits reached).valid
        have inside : u ∈ units := (ListingCursor.mem_onward_iff listable onward (.first valid)).2
          ⟨reached, (Space.start_least listable.map valid_u).2⟩
        obtain ⟨earlier, rest, rfl, from_u, low⟩ := onward.split listable (.first valid) inside
        have passed : lineMatches test start stop
            (earlier.flatMap (Listing.linesAt s settings)) = [] := by
          refine lineMatches_eq_nil fun line member => .inl ?_
          obtain ⟨x, early, there⟩ := List.mem_flatMap.1 member
          obtain ⟨valid_x, before_u⟩ := low x early
          rw [Listing.address_of_mem_linesAt there]
          exact Std.not_le.1 fun behind => Std.not_le_of_gt before_u (first x valid_x behind)
        rw [found, List.flatMap_append, lineMatches_append, passed, List.nil_append]
        exact scanLines_eq listable collects from_u reached shown ahead (by omega) _ false state
          room
      · have valid_u := (listable.reached_sits reached).valid
        rw [invalid u] at valid_u
        cases valid_u
    · rw [lineMatches_eq_nil fun line member => ?_]
      · exact scanLines_beyond collects (.inl left) _ false state room
      · obtain ⟨w, inside, there⟩ := List.mem_flatMap.1 member
        rw [Listing.address_of_mem_linesAt there]
        exact .inl (below w (valid_of_mem inside))

end Search

namespace Space

open ListingCursor (fourBytes listedSpace listedSpace_listable misfiledSpace misfiledSpace_legible
  misfiledSpace_reachable)
open Search

variable {s : Space} {settings : ListingSettings}

/-- A search of the listing tells of those lines in its range that pass the test, in the order in
which they are here, until it is ended. It answers whether there are any. -/
def FiltersLines (s : Space) (settings : ListingSettings) (lines : List ListingLine)
    (query : SearchQuery) (caseSensitive : Bool) (test : ListingLine → Option SearchQuery)
    (start stop : Word) : Prop :=
  ∀ (σ : Type) (watcher : SearchWatcher σ) (log : σ → List SearchMatch) (limit : Option Nat)
    (state : σ), Collects watcher log limit → log state = [] →
    (s.find start stop query settings caseSensitive watcher state).1 =
        !(lineMatches test start stop lines).isEmpty ∧
      log (s.find start stop query settings caseSensitive watcher state).2 =
        upTo limit (lineMatches test start stop lines)

theorem FiltersLines.matchesIn_eq {lines : List ListingLine} {query : SearchQuery}
    {caseSensitive : Bool} {test : ListingLine → Option SearchQuery} {start stop : Word}
    (filters : FiltersLines s settings lines query caseSensitive test start stop) :
    s.matchesIn start stop query settings caseSensitive = lineMatches test start stop lines :=
  (filters _ _ id none [] (keepMatches_collects none) rfl).2

end Space

end BinaryAtlas
