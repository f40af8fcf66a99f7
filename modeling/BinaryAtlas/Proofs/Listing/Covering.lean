import BinaryAtlas.Proofs.Listing.Validity
import BinaryAtlas.Proofs.SegmentMap.Reading

/-!
What covers the addresses of a space that can be listed: a block, a variable, or nothing, in which
case a row of bytes goes up to the next place where something begins.
-/

set_option autoImplicit false

namespace BinaryAtlas

namespace AddressRange

theorem contains_start {r : AddressRange} {a : Word} (inside : r.contains a = true) :
    r.contains r.start = true := by
  rw [contains_iff] at inside ⊢
  exact ⟨Std.le_refl _, Std.lt_of_le_of_lt inside.1 inside.2⟩

end AddressRange

namespace FunctionTable

def allBlocks (t : FunctionTable) : List BasicBlock := t.all.flatMap (·.blocks)

variable {t : FunctionTable} {a : Word}

theorem blockAt?_eq_some {function : Word} {b : BasicBlock}
    (found : t.blockAt? a = some (function, b)) : b ∈ t.allBlocks ∧ b.contains a = true := by
  obtain ⟨f, member, here⟩ := List.exists_of_findSome?_eq_some found
  obtain ⟨block, at_a, same⟩ := Option.map_eq_some_iff.1 here
  cases same
  unfold Function.blockAt? at at_a
  have covers := List.find?_some at_a
  exact ⟨List.mem_flatMap.2 ⟨f, member, List.mem_of_find?_eq_some at_a⟩, covers⟩

theorem blockAt?_eq_none {b : BasicBlock} (missing : t.blockAt? a = none)
    (member : b ∈ t.allBlocks) : b.contains a = false := by
  obtain ⟨f, held, part⟩ := List.mem_flatMap.1 member
  have nothing := Option.map_eq_none_iff.1 (List.findSome?_eq_none_iff.1 missing f held)
  simpa using List.find?_eq_none.1 nothing b part

theorem nextBlockAfter?_least (t : FunctionTable) (a : Word) :
    Word.Least (fun x => a < x ∧ ∃ b ∈ t.allBlocks, b.start = x) (t.nextBlockAfter? a) := by
  refine (Word.min?_least _).congr fun x => ?_
  simp only [List.mem_filter, decide_eq_true_eq, List.mem_flatMap, List.mem_map, allBlocks]
  grind

end FunctionTable

namespace Space

variable {s : Space} {a : Word}

/-- A read of any length that starts here gives something. -/
def Readable (s : Space) (a : Word) : Prop := ∀ length, 0 < length → s.read a length ≠ []

theorem readable_of_byte (plain : ∀ access, s.storage.medium ≠ .provider access)
    (byte : s.read a 1 ≠ []) : s.Readable a := by
  intro length wanted
  unfold read Backend.read at byte ⊢
  cases backend : s.backend with
  | raw =>
    rw [backend] at byte
    exact Storage.read_ne_nil plain byte wanted
  | mapped label =>
    rw [backend] at byte
    exact SegmentMap.read_ne_nil plain byte wanted

/-- What is valid can be read, variables and blocks lie where something is valid and keep apart, and
no instruction is longer than its bytes. -/
structure Legible (s : Space) : Prop where
  readable : ∀ {a}, s.isValid a = true → s.Readable a
  variableMapped : ∀ {v a}, v ∈ s.metadata.dataVariables.values → v.range.contains a = true →
    s.isValid a = true
  blockMapped : ∀ {b a}, b ∈ s.functions.allBlocks → b.contains a = true → s.isValid a = true
  variablesApart : ∀ {v w a}, v ∈ s.metadata.dataVariables.values →
    w ∈ s.metadata.dataVariables.values → v.range.contains a = true → w.range.contains a = true →
    w = v
  /-- Functions may have a block in common. -/
  blocksApart : ∀ {b c a}, b ∈ s.functions.allBlocks → c ∈ s.functions.allBlocks →
    b.contains a = true → c.contains a = true → c.start = b.start ∧ c.stop = b.stop
  kindsApart : ∀ {v b a}, v ∈ s.metadata.dataVariables.values → b ∈ s.functions.allBlocks →
    v.range.contains a = true → b.contains a = false
  decodes : ∀ {architecture}, s.architecture = some architecture → ∀ bytes a,
    (architecture.decode bytes a).length ≤ bytes.length

/-- What a listing relies on. Beside what it shows, the segments of a layer keep apart and each
variable is filed where it begins. Adding and removing leave them so, but the tables of a snapshot
are taken over as they are. -/
structure Listable (s : Space) : Prop extends Legible s where
  map : s.map.Sound
  filed : ∀ {a v}, s.metadata.dataVariables.get? a = some v → v.address = a

/-- What units rely on wherever they begin, be there bytes or not: how segments and variables are
filed, and that no instruction is longer than its bytes. -/
structure Placed (s : Space) : Prop where
  map : s.map.Sound
  filed : ∀ {a v}, s.metadata.dataVariables.get? a = some v → v.address = a
  decodes : ∀ {architecture}, s.architecture = some architecture → ∀ bytes a,
    (architecture.decode bytes a).length ≤ bytes.length

theorem Listable.placed (listable : s.Listable) : s.Placed :=
  ⟨listable.map, listable.filed, listable.decodes⟩

/-- What units rely on for going up, beside how segments are filed: how variables are, and that no
instruction is longer than its bytes. -/
structure Orderly (s : Space) : Prop where
  filed : ∀ {a v}, s.metadata.dataVariables.get? a = some v → v.address = a
  decodes : ∀ {architecture}, s.architecture = some architecture → ∀ bytes a,
    (architecture.decode bytes a).length ≤ bytes.length

/-- Units lie ahead of where they begin, wherever segments end. -/
structure Walkable (s : Space) : Prop extends Orderly s where
  segmentsFiled : ∀ {auto start g}, (s.map.layer auto).get? start = some g → g.start = start

theorem Placed.walkable (placed : s.Placed) : s.Walkable where
  filed := placed.filed
  decodes := placed.decodes
  segmentsFiled {auto _ _} held := (placed.map.layer auto).filed held

theorem variableContaining?_eq_some {v : DataVariable} (found : s.variableContaining? a = some v) :
    v ∈ s.metadata.dataVariables.values ∧ v.range.contains a = true := by
  unfold variableContaining? at found
  have covers := List.find?_some found
  obtain ⟨entry, kept, rfl⟩ :=
    List.mem_map.1 (List.mem_reverse.1 (List.mem_of_find?_eq_some found))
  exact ⟨List.mem_map.2 ⟨entry, (List.mem_filter.1 kept).1, rfl⟩, covers⟩

theorem Listable.variableContaining?_eq_none (listable : s.Listable) {v : DataVariable}
    (missing : s.variableContaining? a = none) (member : v ∈ s.metadata.dataVariables.values) :
    v.range.contains a = false := by
  by_contra covers
  rw [Bool.not_eq_false] at covers
  obtain ⟨key, held⟩ := (Table.mem_values_iff _ v).1 member
  have filed := listable.filed held
  subst filed
  have reached : v.address ≤ a := (AddressRange.contains_iff.1 covers).1
  have listed :
      v ∈ ((s.metadata.dataVariables.entries.filter fun e => e.1 ≤ a).map (·.2)).reverse :=
    List.mem_reverse.2 (List.mem_map.2 ⟨(v.address, v), List.mem_filter.2
      ⟨Table.get?_eq_some_iff.1 held, decide_eq_true reached⟩, rfl⟩)
  exact List.find?_eq_none.1 missing v listed covers

theorem variableAfter?_least
    (filed : ∀ {a v}, s.metadata.dataVariables.get? a = some v → v.address = a) (a : Word) :
    Word.Least (fun x => a < x ∧ ∃ v ∈ s.metadata.dataVariables.values, v.address = x)
      ((s.variableAfter? a).map (·.address)) := by
  unfold variableAfter? Table.above?
  cases found : s.metadata.dataVariables.entries.find? fun e => (compare e.1 a).isGT with
  | none =>
    rintro x ⟨behind, v, member, rfl⟩
    obtain ⟨key, held⟩ := (Table.mem_values_iff _ v).1 member
    have own := filed held
    subst own
    have := List.find?_eq_none.1 found _ (Table.get?_eq_some_iff.1 held)
    simp [Ordering.isGT_iff_eq_gt, Std.compare_eq_gt, behind] at this
  | some entry =>
    obtain ⟨key, v⟩ := entry
    obtain ⟨held, wanted, nearest⟩ := Table.find?_entries_eq_some found
    simp only [Ordering.isGT_iff_eq_gt, Std.compare_eq_gt] at wanted nearest
    have own := filed held
    subst own
    refine ⟨⟨wanted, v, (Table.mem_values_iff _ v).2 ⟨_, held⟩, rfl⟩, ?_⟩
    rintro x ⟨behind, w, member, rfl⟩
    obtain ⟨key, other⟩ := (Table.mem_values_iff _ w).1 member
    have own := filed other
    subst own
    exact nearest _ w other behind

/-- A place where a row of bytes that begins further down has to end. -/
def Marks (s : Space) (x : Word) : Prop :=
  (∃ v ∈ s.metadata.dataVariables.values, v.address = x) ∨
    (s.architecture.isSome ∧ ∃ b ∈ s.functions.allBlocks, b.start = x) ∨ s.map.Begins x

theorem nextBlock_least (s : Space) (a : Word) :
    Word.Least (fun x => a < x ∧ s.architecture.isSome ∧ ∃ b ∈ s.functions.allBlocks, b.start = x)
      (s.architecture.bind fun _ => s.functions.nextBlockAfter? a) := by
  cases known : s.architecture with
  | none => simp [Word.Least]
  | some architecture =>
    refine (FunctionTable.nextBlockAfter?_least s.functions a).congr fun x => ?_
    simp

theorem Placed.rowStop_le_iff (placed : s.Placed) (settings : ListingSettings) (a x : Word) :
    Listing.rowStop s settings a ≤ x ↔
      Word.addCapped (a - a % settings.row) settings.row ≤ x ∨
        ∃ b, (a < b ∧ s.Marks b) ∧ b ≤ x := by
  have behind_variable := (variableAfter?_least placed.filed a).exists_le_iff (a := x)
  have behind_block := (nextBlock_least s a).exists_le_iff (a := x)
  have behind_segment :=
    (SegmentMap.nextStartAfter?_least placed.map.spaced a).exists_le_iff (a := x)
  unfold Listing.rowStop
  rw [Word.foldl_min_le_iff]
  simp only [List.mem_append, Option.mem_toList, or_and_right, exists_or, behind_variable,
    behind_block, behind_segment, Marks, and_or_left, or_assoc]

/-- The range of a block or a variable, where nothing else is listed. Blocks count only if their
instructions can be decoded. -/
def Covers (s : Space) (r : AddressRange) : Prop :=
  (s.architecture.isSome ∧ ∃ b ∈ s.functions.allBlocks, r = ⟨b.start, b.stop⟩) ∨
    ∃ v ∈ s.metadata.dataVariables.values, r = v.range

theorem Covers.marks {r : AddressRange} (covers : s.Covers r) : s.Marks r.start := by
  rcases covers with ⟨known, b, member, rfl⟩ | ⟨v, member, rfl⟩
  · exact .inr (.inl ⟨known, b, member, rfl⟩)
  · exact .inl ⟨v, member, rfl⟩

theorem Listable.covers_valid (listable : s.Listable) {r : AddressRange} (covers : s.Covers r)
    (inside : r.contains a = true) : s.isValid a = true := by
  rcases covers with ⟨-, b, member, rfl⟩ | ⟨v, member, rfl⟩
  · exact listable.blockMapped member inside
  · exact listable.variableMapped member inside

theorem Listable.covers_unique (listable : s.Listable) {r r' : AddressRange} (covers : s.Covers r)
    (covers' : s.Covers r') (inside : r.contains a = true) (inside' : r'.contains a = true) :
    r' = r := by
  rcases covers with ⟨-, b, member, rfl⟩ | ⟨v, member, rfl⟩ <;>
    rcases covers' with ⟨-, c, member', rfl⟩ | ⟨w, member', rfl⟩
  · obtain ⟨start, stop⟩ := listable.blocksApart member member' inside inside'
    rw [start, stop]
  · have := listable.kindsApart member' member inside'
    exact absurd inside (by simpa [AddressRange.contains, BasicBlock.contains] using this)
  · have := listable.kindsApart member member' inside
    exact absurd inside' (by simpa [AddressRange.contains, BasicBlock.contains] using this)
  · rw [listable.variablesApart member member' inside inside']

theorem codeBlockAt?_eq_some_iff {function : Word} {b : BasicBlock} {architecture : Architecture} :
    Listing.codeBlockAt? s a = some (function, b, architecture) ↔
      s.architecture = some architecture ∧ s.functions.blockAt? a = some (function, b) := by
  cases known : s.architecture with
  | none => simp [Listing.codeBlockAt?, known]
  | some own =>
    cases found : s.functions.blockAt? a with
    | none => simp [Listing.codeBlockAt?, known, found]
    | some entry =>
      obtain ⟨f, c⟩ := entry
      simp [Listing.codeBlockAt?, known, found]
      grind

theorem codeBlock_covers {function : Word} {b : BasicBlock} {architecture : Architecture}
    (found : Listing.codeBlockAt? s a = some (function, b, architecture)) :
    s.Covers ⟨b.start, b.stop⟩ ∧ AddressRange.contains ⟨b.start, b.stop⟩ a = true := by
  obtain ⟨known, held⟩ := codeBlockAt?_eq_some_iff.1 found
  obtain ⟨member, inside⟩ := FunctionTable.blockAt?_eq_some held
  exact ⟨.inl ⟨by simp [known], b, member, rfl⟩, inside⟩

theorem variable_covers {v : DataVariable} (found : s.variableContaining? a = some v) :
    s.Covers v.range ∧ v.range.contains a = true := by
  obtain ⟨member, inside⟩ := variableContaining?_eq_some found
  exact ⟨.inr ⟨v, member, rfl⟩, inside⟩

theorem covers_of_coveredStop? {stop : Word} (covered : Listing.coveredStop? s a = some stop) :
    ∃ r, s.Covers r ∧ r.contains a = true ∧ r.stop = stop := by
  unfold Listing.coveredStop? at covered
  split at covered
  · rename_i function b architecture found
    cases covered
    obtain ⟨covers, inside⟩ := codeBlock_covers found
    exact ⟨_, covers, inside, rfl⟩
  · obtain ⟨v, found, rfl⟩ := Option.map_eq_some_iff.1 covered
    obtain ⟨covers, inside⟩ := variable_covers found
    exact ⟨_, covers, inside, rfl⟩

theorem Listable.not_covers (listable : s.Listable) (uncovered : Listing.coveredStop? s a = none)
    {r : AddressRange} (covers : s.Covers r) : r.contains a = false := by
  unfold Listing.coveredStop? at uncovered
  split at uncovered
  · cases uncovered
  · rename_i uncoded
    rcases covers with ⟨known, b, member, rfl⟩ | ⟨v, member, rfl⟩
    · obtain ⟨architecture, known⟩ := Option.isSome_iff_exists.1 known
      cases held : s.functions.blockAt? a with
      | none => exact FunctionTable.blockAt?_eq_none held member
      | some entry =>
        obtain ⟨function, c⟩ := entry
        have found := codeBlockAt?_eq_some_iff.2 ⟨known, held⟩
        rw [uncoded] at found
        cases found
    · exact listable.variableContaining?_eq_none (Option.map_eq_none_iff.1 uncovered) member

theorem Listable.coveredStop?_of_covers (listable : s.Listable) {r : AddressRange}
    (covers : s.Covers r) (inside : r.contains a = true) :
    Listing.coveredStop? s a = some r.stop := by
  cases covered : Listing.coveredStop? s a with
  | none =>
    rw [listable.not_covers covered covers] at inside
    cases inside
  | some stop =>
    obtain ⟨r', covers', inside', rfl⟩ := covers_of_coveredStop? covered
    rw [listable.covers_unique covers covers' inside inside']

end Space

end BinaryAtlas
