import BinaryAtlas.Proofs.Space.Blindness

/-!
Bulk blocks only delay word of symbols. Two runs that do the same, but for where they begin and end
blocks, tell the same in the same order, as soon as both have left all their blocks.
-/

set_option autoImplicit false

namespace BinaryAtlas

namespace Notice

def symbolChanges (notices : List Notice) : List ChangeEvent := notices.filterMap symbolChange?

def others (notices : List Notice) : List Notice := notices.filter (!·.isAboutSymbol)

variable (first later notices : List Notice)

@[simp] theorem symbolChanges_append :
    symbolChanges (first ++ later) = symbolChanges first ++ symbolChanges later :=
  List.filterMap_append

@[simp] theorem others_append : others (first ++ later) = others first ++ others later :=
  List.filter_append ..

@[simp] theorem others_others : others (others notices) = others notices := by
  simp [others]

@[simp] theorem symbolChanges_others : symbolChanges (others notices) = [] := by
  refine List.filterMap_eq_nil_iff.2 fun n member => symbolChange?_eq_none ?_
  simpa using (List.mem_filter.1 member).2

/-- Word of symbols that comes at last. -/
theorem of_symbols {events : List ChangeEvent} (about : ∀ e ∈ events, e.isAboutSymbol = true) :
    symbolChanges (events.map .changed) = events ∧ others (events.map .changed) = [] := by
  constructor
  · rw [symbolChanges, List.filterMap_map]
    exact (List.filterMap_congr fun e member => if_pos (about e member)).trans List.filterMap_some
  · refine List.filter_eq_nil_iff.2 fun n member => ?_
    obtain ⟨e, among, rfl⟩ := List.mem_map.1 member
    simp [isAboutSymbol, about e among]

end Notice

namespace SymbolBulk

open Notice

variable {b : SymbolBulk}

/-- All word of symbols is told or kept back, in its order, and all else is told. -/
theorem tells_or_keeps (sound : b.Sound) (notices : List Notice) :
    symbolChanges (b.tells notices) ++ (b.keeps notices).deferred =
      b.deferred ++ symbolChanges notices ∧ others (b.tells notices) = others notices := by
  by_cases outside : b.depth = 0
  · simp [tells, keeps, outside, sound.closed outside]
  · have told : b.tells notices = others notices := if_neg outside
    have kept : b.keeps notices = ⟨b.depth, b.deferred ++ symbolChanges notices⟩ := if_neg outside
    simp [told, kept]

theorem Sound.eq_closed (sound : b.Sound) (outside : b.depth = 0) : b = ⟨0, []⟩ := by
  obtain ⟨depth, deferred⟩ := b
  obtain rfl : depth = 0 := outside
  obtain rfl : deferred = [] := sound.closed rfl
  rfl

theorem keeps_sound (sound : b.Sound) (notices : List Notice) : (b.keeps notices).Sound := by
  by_cases outside : b.depth = 0
  · rwa [keeps, if_pos outside]
  · rw [keeps, if_neg outside]
    refine ⟨fun closed => absurd closed outside, List.forall_mem_append.2 ⟨sound.symbols, ?_⟩⟩
    intro e member
    obtain ⟨n, -, about⟩ := List.mem_filterMap.1 member
    exact isAboutSymbol_of_symbolChange? about

end SymbolBulk

/-- A run that may keep word of symbols back, and one that does the same outside of any block.
Sooner or later both tell the same, and they lead to the same space. -/
structure Delayed (pending : List ChangeEvent) (run bare : List Notice × Unit × Space) : Prop where
  sound : run.2.2.bulk.Sound
  symbols : Notice.symbolChanges run.1 ++ run.2.2.bulk.deferred =
    pending ++ Notice.symbolChanges bare.1
  others : Notice.others run.1 = Notice.others bare.1
  space : run.2.2.withBulk ⟨0, []⟩ = bare.2.2

namespace Delayed

open Notice

theorem append {pending : List ChangeEvent} {run bare later lateBare : List Notice × Unit × Space}
    (first : Delayed pending run bare) (second : Delayed run.2.2.bulk.deferred later lateBare) :
    Delayed pending (run.1 ++ later.1, later.2) (bare.1 ++ lateBare.1, lateBare.2) where
  sound := second.sound
  symbols := by
    rw [symbolChanges_append, symbolChanges_append, List.append_assoc, second.symbols,
      ← List.append_assoc, first.symbols, List.append_assoc]
  others := by rw [others_append, others_append, first.others, second.others]
  space := second.space

end Delayed

namespace SpaceEdit

/-- The depth of the blocks that a space is in after an edit. -/
def deepen (depth : Nat) : SpaceEdit → Nat
  | beginBulk => depth + 1
  | endBulk => depth - 1
  | _ => depth

def depthAfter (depth : Nat) (edits : List SpaceEdit) : Nat := edits.foldl deepen depth

end SpaceEdit

namespace Space

open Op Notice SpaceEdit

variable {s : Space} {b : SymbolBulk}

theorem collect_forEach_notify (events : List ChangeEvent) (s : Space) :
    (forEach (fun event => notify (.changed event)) events s).collect =
      (events.map .changed, (), s) := by
  induction events with
  | nil => rfl
  | cons event rest ih =>
    show (Notice.changed event :: (forEach _ rest s).collect.1, (forEach _ rest s).collect.2) = _
    rw [ih]
    rfl

theorem endBulk_outside (outside : s.bulk.depth = 0) : endBulk s = .done () s := by
  have whole (deferred : List ChangeEvent) : endBulk (s.withBulk ⟨0, deferred⟩) =
      .done () (s.withBulk ⟨0, deferred⟩) := rfl
  have same : s.withBulk ⟨0, s.bulk.deferred⟩ = s := withBulk_of_bulk (by rw [← outside])
  rw [← same, whole]

theorem endBulk_outermost (deferred : List ChangeEvent) :
    (endBulk (s.withBulk ⟨1, deferred⟩)).collect =
      (deferred.map .changed, (), s.withBulk ⟨0, []⟩) :=
  collect_forEach_notify deferred (s.withBulk ⟨0, []⟩)

/-- To begin or to end a block is nothing outside of any block. -/
theorem bracket_delayed (sound : b.Sound) {edit : SpaceEdit} (bracket : edit.isBracket = true) :
    Delayed b.deferred (edit.run (s.withBulk b)).collect ([], (), s.withBulk ⟨0, []⟩) ∧
      (edit.run (s.withBulk b)).collect.2.2.bulk.depth = deepen b.depth edit := by
  cases edit with
  | beginBulk =>
    exact ⟨⟨SymbolBulk.sound_inside sound _, (List.append_nil _).symm, rfl, rfl⟩, rfl⟩
  | endBulk =>
    rcases b with ⟨_ | _ | depth, deferred⟩
    · exact ⟨⟨sound, (List.append_nil _).symm, rfl, rfl⟩, rfl⟩
    · have told : ((SpaceEdit.endBulk).run (s.withBulk ⟨1, deferred⟩)).collect = _ :=
        endBulk_outermost deferred
      obtain ⟨symbols, others⟩ := of_symbols sound.symbols
      rw [told]
      exact ⟨⟨SymbolBulk.closed_sound, congrArg (· ++ []) symbols, others, rfl⟩, rfl⟩
    · exact ⟨⟨SymbolBulk.sound_inside sound _, (List.append_nil _).symm, rfl, rfl⟩, rfl⟩
  | _ => cases bracket

/-- Any other edit does what it does outside of any block, and word of symbols waits. -/
theorem inner_delayed (sound : b.Sound) {edit : SpaceEdit} (genuine : edit.isGenuine = true)
    (inner : edit.isBracket = false) :
    Delayed b.deferred (edit.run (s.withBulk b)).collect
        (edit.run (s.withBulk ⟨0, []⟩)).collect ∧
      (edit.run (s.withBulk b)).collect.2.2.bulk.depth = deepen b.depth edit := by
  obtain ⟨outside, same⟩ := (run_blind genuine inner).delays (s.withBulk ⟨0, []⟩) rfl
  have same : (edit.run (s.withBulk b)).collect = _ := same b
  obtain ⟨symbols, others⟩ := SymbolBulk.tells_or_keeps sound
    (edit.run (s.withBulk ⟨0, []⟩)).collect.1
  have level : deepen b.depth edit = b.depth := by
    cases edit <;> first | rfl | cases inner
  rw [same, level]
  exact ⟨⟨SymbolBulk.keeps_sound sound _, symbols, others, withBulk_of_bulk outside⟩,
    SymbolBulk.depth_keeps ..⟩

/-- A whole run, with the run of all that does not begin or end a block. -/
theorem run_delayed (sound : b.Sound) {edits : List SpaceEdit}
    (genuine : ∀ edit ∈ edits, edit.isGenuine = true) :
    Delayed b.deferred (forEach SpaceEdit.run edits (s.withBulk b)).collect
        (forEach SpaceEdit.run (edits.filter (!·.isBracket)) (s.withBulk ⟨0, []⟩)).collect ∧
      (forEach SpaceEdit.run edits (s.withBulk b)).collect.2.2.bulk.depth =
        depthAfter b.depth edits := by
  induction edits generalizing s b with
  | nil => exact ⟨⟨sound, (List.append_nil _).symm, rfl, rfl⟩, rfl⟩
  | cons edit rest ih =>
    obtain ⟨this, others⟩ := List.forall_mem_cons.1 genuine
    have whole (rest : List SpaceEdit) (s : Space) :
        (forEach SpaceEdit.run (edit :: rest) s).collect = _ :=
      Run.collect_bind (edit.run s) fun _ => forEach SpaceEdit.run rest
    let after := (edit.run (s.withBulk b)).collect.2.2
    -- Outside of blocks, a bracket is no step at all, and any other edit is the same step.
    cases bracket : edit.isBracket with
    | true =>
      obtain ⟨first, level⟩ := bracket_delayed (s := s) sound bracket
      obtain ⟨later, deeper⟩ := ih (s := after) first.sound others
      rw [first.space] at later
      rw [level] at deeper
      rw [whole, List.filter_cons_of_neg (by simp [bracket])]
      exact ⟨first.append later, deeper⟩
    | false =>
      obtain ⟨first, level⟩ := inner_delayed (s := s) sound this bracket
      obtain ⟨later, deeper⟩ := ih (s := after) first.sound others
      rw [first.space] at later
      rw [level] at deeper
      rw [whole, List.filter_cons_of_pos (by simp [bracket]), whole]
      exact ⟨first.append later, deeper⟩

/-- Within a block nothing is told of symbols but by the end of the outermost one. -/
theorem edit_silent (inside : 0 < b.depth) {edit : SpaceEdit} (genuine : edit.isGenuine = true)
    (later : ¬ (edit = .endBulk ∧ b.depth = 1)) :
    symbolChanges (edit.run (s.withBulk b)).collect.1 = [] := by
  cases bracket : edit.isBracket with
  | true =>
    cases edit with
    | beginBulk => rfl
    | endBulk =>
      rcases b with ⟨_ | _ | depth, deferred⟩
      · cases inside
      · exact (later ⟨rfl, rfl⟩).elim
      · rfl
    | _ => cases bracket
  | false =>
    obtain ⟨-, same⟩ := (run_blind genuine bracket).delays (s.withBulk ⟨0, []⟩) rfl
    have same : (edit.run (s.withBulk b)).collect = _ := same b
    have told (notices : List Notice) : b.tells notices = Notice.others notices :=
      if_neg (Nat.ne_of_gt inside)
    rw [same, told, symbolChanges_others]

/-- Bulk blocks only delay word of symbols. Whatever else is told is told as it would be without the
blocks, and so is all that is told of symbols once every block is left; within a block nothing of
that is told, and at the end of the outermost one nothing of it is kept. -/
theorem bulk_blocks_only_delay (reached : s.Reachable) {edits plain : List SpaceEdit}
    (genuine : ∀ edit ∈ edits, edit.isGenuine = true)
    (same : edits.filter (!·.isBracket) = plain.filter (!·.isBracket)) :
    let run := (forEach SpaceEdit.run edits s).collect
    let other := (forEach SpaceEdit.run plain s).collect
    (Notice.others run.1 = Notice.others other.1 ∧
      symbolChanges run.1 ++ run.2.2.bulk.deferred =
        symbolChanges other.1 ++ other.2.2.bulk.deferred ∧
      run.2.2.withBulk other.2.2.bulk = other.2.2) ∧
    (depthAfter s.bulk.depth edits = 0 → depthAfter s.bulk.depth plain = 0 →
      symbolChanges run.1 = symbolChanges other.1 ∧ run.2.2 = other.2.2) ∧
    (∀ front, front <+: edits → depthAfter s.bulk.depth front = 0 →
      let seen := (forEach SpaceEdit.run front s).collect.2.2
      seen.bulk.deferred = [] ∧ endBulk seen = .done () seen) ∧
    ∀ front edit, front ++ [edit] <+: edits → 0 < depthAfter s.bulk.depth front →
      ¬ (edit = .endBulk ∧ depthAfter s.bulk.depth front = 1) →
      symbolChanges (edit.run (forEach SpaceEdit.run front s).collect.2.2).collect.1 = [] := by
  intro run other
  have sound : s.bulk.Sound := (reachable_filed reached).1.bulk
  -- Both runs are compared with the same third one, which has no blocks.
  have genuine' : ∀ edit ∈ plain, edit.isGenuine = true := by
    intro edit member
    cases bracket : edit.isBracket with
    | true => cases edit <;> first | rfl | cases bracket
    | false =>
      have among : edit ∈ edits.filter (!·.isBracket) :=
        same ▸ List.mem_filter.2 ⟨member, by simp [bracket]⟩
      exact genuine edit (List.mem_filter.1 among).1
  obtain ⟨delayed, level⟩ := run_delayed (s := s) sound genuine
  obtain ⟨delayed', level'⟩ := run_delayed (s := s) sound genuine'
  rw [same] at delayed
  have symbols : symbolChanges run.1 ++ run.2.2.bulk.deferred =
      symbolChanges other.1 ++ other.2.2.bulk.deferred :=
    delayed.symbols.trans delayed'.symbols.symm
  have space : run.2.2.withBulk other.2.2.bulk = other.2.2 :=
    congrArg (·.withBulk other.2.2.bulk) (delayed.space.trans delayed'.space.symm)
  have begun {front : List SpaceEdit} (part : front <+: edits) :=
    run_delayed (s := s) sound fun edit member => genuine edit (part.subset member)
  refine ⟨⟨delayed.others.trans delayed'.others.symm, symbols, space⟩, fun closed closed' => ?_,
    fun front part closed => ?_, fun front edit part inside later => ?_⟩
  · have left : run.2.2.bulk = ⟨0, []⟩ := delayed.sound.eq_closed (level.trans closed)
    have left' : other.2.2.bulk = ⟨0, []⟩ := delayed'.sound.eq_closed (level'.trans closed')
    rw [left, left', List.append_nil, List.append_nil] at symbols
    rw [left', withBulk_of_bulk left] at space
    exact ⟨symbols, space⟩
  · obtain ⟨delayed, level⟩ := begun part
    exact ⟨delayed.sound.closed (level.trans closed), endBulk_outside (level.trans closed)⟩
  · obtain ⟨-, level⟩ := begun ((List.prefix_append front [edit]).trans part)
    have level : (forEach SpaceEdit.run front s).collect.2.2.bulk.depth =
        depthAfter s.bulk.depth front := level
    rw [← level] at inside later
    exact edit_silent inside (genuine edit (part.subset (by simp))) later

/-- A block within a block, with steps that are taken back in the inner one, and an end too many. -/
def nestedEdits : List SpaceEdit :=
  let symbol (name : String) (a : Word) : Symbol :=
    ⟨.data, .none, "", name, name, name, a, 0, false⟩
  [.defineSymbol (symbol "a" 1), .beginBulk, .defineSymbol (symbol "b" 2), .setComment 0 "c",
    .beginBulk, .defineSymbol (symbol "d" 1), .undo, .redo, .endBulk,
    .defineVariable ⟨0, .bool, false⟩, .undefineSymbol ⟨2, ""⟩ false, .endBulk, .endBulk,
    .defineSymbol (symbol "e" 3)]

theorem nested_blocks_delay :
    let run := (forEach SpaceEdit.run nestedEdits emptySpace).collect
    let other := (forEach SpaceEdit.run (nestedEdits.filter (!·.isBracket)) emptySpace).collect
    (depthAfter 0 nestedEdits = 0 ∧ (symbolChanges run.1).length = 7 ∧ run.1 ≠ other.1) ∧
      symbolChanges run.1 = symbolChanges other.1 ∧ Notice.others run.1 = Notice.others other.1 ∧
      run.2.2 = other.2.2 := by
  have closed : depthAfter 0 nestedEdits = 0 := by decide
  have genuine : ∀ edit ∈ nestedEdits, edit.isGenuine = true := by decide
  have same : nestedEdits.filter (!·.isBracket) =
      (nestedEdits.filter (!·.isBracket)).filter (!·.isBracket) := rfl
  obtain ⟨⟨others, -, -⟩, equal, -⟩ := bulk_blocks_only_delay emptySpace_reachable genuine same
  obtain ⟨symbols, space⟩ := equal closed (by decide)
  exact ⟨⟨closed, by decide +kernel⟩, symbols, others, space⟩

end Space

end BinaryAtlas
