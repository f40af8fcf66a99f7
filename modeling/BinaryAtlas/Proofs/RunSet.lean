import BinaryAtlas.PatchLog
import Mathlib.Tactic.ByContra

/-!
Runs of bytes as a set. Cutting, moving and putting side by side are described by the runs they
leave and by the bytes these cover. In a canonical set no two runs that touch agree, so the bytes
determine the runs.
-/

set_option autoImplicit false

namespace BinaryAtlas

/-- A set of runs, each with its start, its stop and its status. -/
abbrev RunSet := Word → Word → ByteStatus → Prop

namespace RunSet

structure Separated (runs : RunSet) : Prop where
  nonempty : ∀ {start stop status}, runs start stop status → start < stop
  modified : ∀ {start stop status}, runs start stop status → status ≠ .untouched
  single : ∀ {start stop status stop' status'}, runs start stop status →
    runs start stop' status' → stop = stop' ∧ status = status'
  apart : ∀ {start stop status next stop' status'}, runs start stop status →
    runs next stop' status' → start < next → stop ≤ next

def Covers (runs : RunSet) (offset : Word) (status : ByteStatus) : Prop :=
  ∃ start stop, runs start stop status ∧ start ≤ offset ∧ offset < stop

def SeamsWithin (runs : RunSet) (lo hi : Word) : Prop :=
  ∀ {start seam stop status}, runs start seam status → runs seam stop status → lo ≤ seam ∧ seam ≤ hi

structure Canonical (runs : RunSet) : Prop extends Separated runs where
  joined : ∀ {start seam stop status}, runs start seam status → ¬ runs seam stop status

def none : RunSet := fun _ _ _ => False

def one (start stop : Word) (status : ByteStatus) : RunSet :=
  fun s e st => s = start ∧ e = stop ∧ st = status ∧ status ≠ .untouched

def union (left right : RunSet) : RunSet :=
  fun start stop status => left start stop status ∨ right start stop status

def below (runs : RunSet) (offset : Word) : RunSet := fun start stop status =>
  ∃ whole, runs start whole status ∧ start < offset ∧
    stop = if whole ≤ offset then whole else offset

def onward (runs : RunSet) (offset : Word) : RunSet := fun start stop status =>
  ∃ origin, runs origin stop status ∧ offset < stop ∧
    start = if offset ≤ origin then origin else offset

def moved (runs : RunSet) (move : Word → Word) : RunSet := fun start stop status =>
  ∃ s e, runs s e status ∧ start = move s ∧ stop = move e

def joined (runs : RunSet) (previous start stop : Word) (status : ByteStatus) : RunSet :=
  fun s e st => if s = previous then e = stop ∧ st = status else s ≠ start ∧ runs s e st

theorem Separated.union {left right : RunSet} (first : left.Separated) (second : right.Separated)
    (clear : ∀ {s e st s' e' st'}, left s e st → right s' e' st' → e ≤ s' ∨ e' ≤ s) :
    (left.union right).Separated := by
  obtain ⟨nonempty, modified, single, apart⟩ := first
  obtain ⟨nonempty', modified', single', apart'⟩ := second
  constructor <;> grind [RunSet.union]

theorem Separated.below {runs : RunSet} (separated : runs.Separated) (offset : Word) :
    (runs.below offset).Separated := by
  obtain ⟨nonempty, modified, single, apart⟩ := separated
  constructor <;> grind [RunSet.below]

theorem Separated.onward {runs : RunSet} (separated : runs.Separated) (offset : Word) :
    (runs.onward offset).Separated := by
  obtain ⟨nonempty, modified, single, apart⟩ := separated
  constructor <;> grind [RunSet.onward]

theorem Canonical.below {runs : RunSet} (canonical : runs.Canonical) (offset : Word) :
    (runs.below offset).Canonical := by
  refine ⟨canonical.toSeparated.below offset, ?_⟩
  obtain ⟨⟨nonempty, modified, single, apart⟩, joined⟩ := canonical
  grind [RunSet.below]

theorem Canonical.onward {runs : RunSet} (canonical : runs.Canonical) (offset : Word) :
    (runs.onward offset).Canonical := by
  refine ⟨canonical.toSeparated.onward offset, ?_⟩
  obtain ⟨⟨nonempty, modified, single, apart⟩, joined⟩ := canonical
  grind [RunSet.onward]

theorem Canonical.seamsWithin {runs : RunSet} (canonical : runs.Canonical) (lo hi : Word) :
    runs.SeamsWithin lo hi :=
  fun first second => absurd second (canonical.joined first)

theorem SeamsWithin.union {left right : RunSet} {lo hi : Word} (first : left.SeamsWithin lo hi)
    (second : right.SeamsWithin lo hi)
    (rising : ∀ {s seam st e st'}, left s seam st → right seam e st' → lo ≤ seam ∧ seam ≤ hi)
    (falling : ∀ {s seam st e st'}, right s seam st → left seam e st' → lo ≤ seam ∧ seam ≤ hi) :
    (left.union right).SeamsWithin lo hi := by
  intro start seam stop status earlier later
  rcases earlier with earlier | earlier <;> rcases later with later | later
  · exact first earlier later
  · exact rising earlier later
  · exact falling earlier later
  · exact second earlier later

theorem canonical_none : none.Canonical := by
  constructor
  · constructor <;> simp [none]
  · simp [none]

theorem canonical_one {start stop : Word} (ordered : start < stop) (status : ByteStatus) :
    (one start stop status).Canonical := by
  constructor
  · constructor <;> grind [one]
  · grind [one]

/-- Three canonical sets, one behind the other, can only touch at the ends of the middle one. -/
theorem splice {head middle tail : RunSet} (first : head.Canonical) (second : middle.Canonical)
    (third : tail.Canonical) {lo hi : Word} (ordered : lo ≤ hi)
    (ends : ∀ {start stop status}, head start stop status → stop ≤ lo)
    (within : ∀ {start stop status}, middle start stop status → lo ≤ start ∧ stop ≤ hi)
    (begins : ∀ {start stop status}, tail start stop status → hi ≤ start) :
    ((head.union middle).union tail).Separated ∧
      ((head.union middle).union tail).SeamsWithin lo hi := by
  have nonempty := @first.nonempty
  have nonempty' := @second.nonempty
  have nonempty'' := @third.nonempty
  constructor
  · apply (first.toSeparated.union second.toSeparated ?_).union third.toSeparated
    · grind [RunSet.union]
    · grind
  · apply SeamsWithin.union
    -- A seam between two of the sets lies between the ends of one and the starts of the other.
    · apply SeamsWithin.union (first.seamsWithin lo hi) (second.seamsWithin lo hi)
      · grind
      · grind
    · exact third.seamsWithin lo hi
    · grind [RunSet.union]
    · grind [RunSet.union]

theorem Separated.moved {runs : RunSet} (separated : runs.Separated) {move : Word → Word}
    {lo hi : Word} (increasing : ∀ {a b}, lo ≤ a → a < b → b ≤ hi → move a < move b)
    (ends : ∀ {start stop status}, runs start stop status → lo ≤ start ∧ stop ≤ hi) :
    (runs.moved move).Separated := by
  -- An increasing move can be read backwards on the starts.
  have later {s e st s' e' st'} (first : runs s e st) (second : runs s' e' st')
      (before : move s < move s') : s < s' := by
    have := @increasing s' s
    have := separated.nonempty first
    grind
  obtain ⟨nonempty, modified, single, apart⟩ := separated
  constructor
  · grind [RunSet.moved]
  · grind [RunSet.moved]
  · rintro _ _ _ _ _ ⟨s, e, held, rfl, rfl⟩ ⟨s', e', held', same, rfl⟩
    have := @increasing s s'
    have := @increasing s' s
    grind
  · rintro _ _ _ _ _ _ ⟨s, e, held, rfl, rfl⟩ ⟨s', e', held', rfl, rfl⟩ before
    have := apart held held' (later held held' before)
    have := @increasing e s'
    grind

theorem Canonical.moved {runs : RunSet} (canonical : runs.Canonical) {move : Word → Word}
    {lo hi : Word} (increasing : ∀ {a b}, lo ≤ a → a < b → b ≤ hi → move a < move b)
    (ends : ∀ {start stop status}, runs start stop status → lo ≤ start ∧ stop ≤ hi) :
    (runs.moved move).Canonical := by
  refine ⟨canonical.toSeparated.moved increasing ends, ?_⟩
  rintro _ _ _ _ ⟨s, e, held, rfl, rfl⟩ ⟨s', e', held', same, rfl⟩
  have := @increasing e s'
  have := @increasing s' e
  obtain ⟨⟨nonempty, modified, single, apart⟩, joined⟩ := canonical
  grind

theorem Separated.joined {runs : RunSet} (separated : runs.Separated)
    {previous start stop : Word} {status : ByteStatus} (first : runs previous start status)
    (second : runs start stop status) : (runs.joined previous start stop status).Separated := by
  obtain ⟨nonempty, modified, single, apart⟩ := separated
  have before := nonempty first
  have behind := nonempty second
  constructor
  · grind [RunSet.joined]
  · grind [RunSet.joined]
  · grind [RunSet.joined]
  · intro s e st next e' st' earlier later ordered
    simp only [RunSet.joined] at earlier later
    by_cases from_previous : s = previous
    · have later : next ≠ start ∧ runs next e' st' := by grind
      have := apart first later.2
      have := apart second later.2
      grind
    · have earlier : s ≠ start ∧ runs s e st := by grind
      have := apart earlier.2 first
      have := @apart s e st next e' st' earlier.2
      grind

theorem seam_of_joined {runs : RunSet} (separated : runs.Separated)
    {previous start stop : Word} {status : ByteStatus} (first : runs previous start status)
    (second : runs start stop status) {s seam e : Word} {st : ByteStatus}
    (earlier : runs.joined previous start stop status s seam st)
    (later : runs.joined previous start stop status seam e st) :
    seam ≠ start ∧ ∃ origin, (∃ e', runs origin seam st ∧ runs seam e' st) ∧
      (origin = s ∧ s ≠ start ∨ origin = start ∧ s = previous) := by
  have ordered := (separated.joined first second).nonempty earlier
  have before := separated.nonempty first
  have behind := separated.nonempty second
  simp only [RunSet.joined] at earlier later
  by_cases at_previous : seam = previous
  · subst at_previous
    have earlier : s ≠ start ∧ runs s seam st := by grind
    have agrees : st = status := by grind
    exact ⟨by grind, s, ⟨start, earlier.2, agrees ▸ first⟩, .inl ⟨rfl, earlier.1⟩⟩
  · have later : seam ≠ start ∧ runs seam e st := by grind
    by_cases from_previous : s = previous
    -- The end of the joined run was that of its second part.
    · obtain ⟨ends, agrees⟩ : seam = stop ∧ st = status := by grind
      exact ⟨later.1, start, ⟨e, ends ▸ agrees ▸ second, later.2⟩, .inr ⟨rfl, from_previous⟩⟩
    · have earlier : s ≠ start ∧ runs s seam st := by grind
      exact ⟨later.1, s, ⟨e, earlier.2, later.2⟩, .inl ⟨rfl, earlier.1⟩⟩

theorem covers_joined {runs : RunSet} (separated : runs.Separated)
    {previous start stop : Word} {status : ByteStatus} (first : runs previous start status)
    (second : runs start stop status) (offset : Word) (query : ByteStatus) :
    (runs.joined previous start stop status).Covers offset query ↔ runs.Covers offset query := by
  have before := separated.nonempty first
  have behind := separated.nonempty second
  constructor
  · rintro ⟨s, e, held, from_s, to_e⟩
    by_cases same : s = previous
    · obtain ⟨rfl, rfl⟩ : e = stop ∧ query = status := by simpa [joined, same] using held
      by_cases earlier : offset < start
      · exact ⟨previous, start, first, same ▸ from_s, earlier⟩
      · exact ⟨start, e, second, by grind, to_e⟩
    · exact ⟨s, e, by grind [joined], from_s, to_e⟩
  · rintro ⟨s, e, held, from_s, to_e⟩
    by_cases first_part : s = previous
    · have := separated.single first (first_part ▸ held)
      exact ⟨previous, stop, by grind [joined], by grind, by grind⟩
    · by_cases second_part : s = start
      · have := separated.single second (second_part ▸ held)
        exact ⟨previous, stop, by grind [joined], by grind, by grind⟩
      · exact ⟨s, e, by grind [joined], from_s, to_e⟩

@[simp] theorem covers_union (left right : RunSet) (offset : Word) (status : ByteStatus) :
    (left.union right).Covers offset status ↔
      left.Covers offset status ∨ right.Covers offset status := by
  simp only [Covers, union]
  grind

@[simp] theorem not_covers_none (offset : Word) (status : ByteStatus) :
    ¬ none.Covers offset status := by
  simp [Covers, none]

@[simp] theorem covers_one (start stop offset : Word) (status query : ByteStatus) :
    (one start stop status).Covers offset query ↔
      start ≤ offset ∧ offset < stop ∧ query = status ∧ status ≠ .untouched := by
  simp only [Covers, one]
  grind

@[simp] theorem covers_below (runs : RunSet) (border offset : Word) (status : ByteStatus) :
    (runs.below border).Covers offset status ↔ offset < border ∧ runs.Covers offset status := by
  simp only [Covers, below]
  grind

@[simp] theorem covers_onward (runs : RunSet) (border offset : Word) (status : ByteStatus) :
    (runs.onward border).Covers offset status ↔ border ≤ offset ∧ runs.Covers offset status := by
  constructor
  · rintro ⟨start, stop, ⟨origin, held, past, rfl⟩, from_start, to_stop⟩
    exact ⟨by grind, origin, stop, held, by grind, to_stop⟩
  · rintro ⟨within, origin, stop, held, from_origin, to_stop⟩
    exact ⟨_, stop, ⟨origin, held, by grind, rfl⟩, by grind, to_stop⟩

theorem covers_movedUp {runs : RunSet} {length : Word}
    (fits : ∀ {start stop status}, runs start stop status → start < stop ∧ stop ≤ Word.top - length)
    (offset : Word) (status : ByteStatus) :
    (runs.moved (· + length)).Covers offset status ↔
      length ≤ offset ∧ runs.Covers (offset - length) status := by
  constructor
  · rintro ⟨_, _, ⟨s, e, held, rfl, rfl⟩, from_start, to_stop⟩
    have := fits held
    have top : Word.top = 0xffffffffffffffff := rfl
    exact ⟨by grind, s, e, held, by grind, by grind⟩
  · rintro ⟨within, s, e, held, from_start, to_stop⟩
    have := fits held
    have top : Word.top = 0xffffffffffffffff := rfl
    exact ⟨_, _, ⟨s, e, held, rfl, rfl⟩, by grind, by grind⟩

theorem covers_movedDown {runs : RunSet} {length : Word}
    (fits : ∀ {start stop status}, runs start stop status → length ≤ start ∧ start < stop)
    (offset : Word) (status : ByteStatus) :
    (runs.moved (· - length)).Covers offset status ↔
      offset ≤ Word.top - length ∧ runs.Covers (offset + length) status := by
  constructor
  · rintro ⟨_, _, ⟨s, e, held, rfl, rfl⟩, from_start, to_stop⟩
    have := fits held
    have top : Word.top = 0xffffffffffffffff := rfl
    exact ⟨by grind, s, e, held, by grind, by grind⟩
  · rintro ⟨within, s, e, held, from_start, to_stop⟩
    have := fits held
    have top : Word.top = 0xffffffffffffffff := rfl
    exact ⟨_, _, ⟨s, e, held, rfl, rfl⟩, by grind, by grind⟩

/-- Canonical runs that cover the same bytes are the same. One that began later or ended earlier
than its counterpart would touch a run that agrees with it. -/
theorem Canonical.subset_of_covers {left right : RunSet} (first : left.Canonical)
    (second : right.Canonical)
    (same : ∀ offset status, left.Covers offset status ↔ right.Covers offset status)
    {start stop : Word} {status : ByteStatus} (held : left start stop status) :
    right start stop status := by
  obtain ⟨⟨nonempty, modified, single, apart⟩, joined⟩ := first
  obtain ⟨⟨nonempty', modified', single', apart'⟩, joined'⟩ := second
  have ordered := nonempty held
  obtain ⟨s, e, other, from_s, to_e⟩ :=
    (same start status).1 ⟨start, stop, held, Std.le_refl _, ordered⟩
  have starts : s = start := by
    by_contra differ
    -- Some run of the left set covers the byte below `start` and ends there.
    obtain ⟨s', e', before, _, _⟩ :=
      (same (start - 1) status).2 ⟨s, e, other, by grind, by grind⟩
    have touches : e' = start := by grind
    exact joined (touches ▸ before) held
  subst starts
  have stops : e = stop := by
    by_contra differ
    rcases Std.lt_trichotomy e stop with short | same_stop | long
    · obtain ⟨s', e', behind, _, _⟩ := (same e status).1 ⟨s, stop, held, by grind, short⟩
      have touches : s' = e := by grind
      exact joined' other (touches ▸ behind)
    · exact differ same_stop
    · obtain ⟨s', e', behind, _, _⟩ := (same stop status).2 ⟨s, e, other, by grind, long⟩
      have touches : s' = stop := by grind
      exact joined held (touches ▸ behind)
  exact stops ▸ other

end RunSet

end BinaryAtlas
