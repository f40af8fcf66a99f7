import BinaryAtlas.Proofs.Space.Filing

/-!
Spaces in which every record, segment and section is filed under its own key, and nothing that can
be undone or done again would put one elsewhere.
-/

set_option autoImplicit false

namespace BinaryAtlas

namespace Table

variable {K V : Type} [Ord K] [Std.TransOrd K] [Std.LawfulEqOrd K]

/-- Every record is filed under its own key. -/
def FiledBy (t : Table K V) (key : V → K) : Prop :=
  ∀ ⦃k v⦄, t.get? k = some v → key v = k

variable {t : Table K V} {key : V → K} {k : K}

omit [Std.TransOrd K] [Std.LawfulEqOrd K] in
theorem filedBy_empty : FiledBy (.empty : Table K V) key := fun _ _ held => nomatch held

theorem FiledBy.insert (filed : t.FiledBy key) {v : V} (own : key v = k) :
    FiledBy (t.insert k v) key := by
  intro k' v' held
  rcases get?_insert_eq_some_iff.1 held with ⟨rfl, rfl⟩ | ⟨-, held⟩
  · exact own
  · exact filed held

omit [Std.TransOrd K] in
theorem FiledBy.erase (filed : t.FiledBy key) (k : K) : FiledBy (t.erase k) key :=
  fun _ _ held => filed (get?_erase_eq_some_iff.1 held).2

theorem FiledBy.alter (filed : t.FiledBy key) {state : Option V}
    (own : ∀ v, state = some v → key v = k) : FiledBy (t.alter k fun _ => state) key := by
  unfold Table.alter
  cases state with
  | none => exact filed.erase k
  | some v => exact filed.insert (own v rfl)

omit [Std.TransOrd K] in
theorem FiledBy.filter (filed : t.FiledBy key) (keep : K → V → Bool) :
    FiledBy (t.filter keep) key :=
  fun _ _ held => filed ((get?_filter_eq_some_iff _ _ _ _).1 held).1

omit [Std.TransOrd K] in
theorem FiledBy.mapValues (filed : t.FiledBy key) {f : V → V} (same : ∀ v, key (f v) = key v) :
    FiledBy (t.mapValues fun _ => f) key := by
  intro k v held
  rw [get?_mapValues, Option.map_eq_some_iff] at held
  obtain ⟨old, held, rfl⟩ := held
  exact (same old).trans (filed held)

variable [Provenance V]

theorem FiledBy.define (filed : t.FiledBy key) {v : V} (own : key v = k) :
    FiledBy (t.define k v).1 key := by
  unfold Table.define
  cases t.get? k with
  | none => exact filed.insert own
  | some before =>
    simp only
    split
    · exact filed
    · split <;> exact filed.insert own

omit [Std.TransOrd K] in
theorem FiledBy.undefine (filed : t.FiledBy key) (k : K) (auto : Bool) :
    FiledBy (t.undefine k auto).1 key := by
  unfold Table.undefine
  cases t.get? k with
  | none => exact filed
  | some v =>
    simp only
    split
    · exact filed
    · exact filed.erase k

end Table

def TagReference.key (r : TagReference) : TagKey := ⟨r.address, r.tag.id⟩

structure Metadata.Keyed (m : Metadata) : Prop where
  dataVariables : m.dataVariables.FiledBy (·.address)
  symbols : m.symbols.FiledBy (·.key)
  tags : m.tags.FiledBy (·.key)
  strings : m.strings.FiledBy (·.start)

namespace UndoAction

/-- What an action was about, and what takes its place, belong where the action says. -/
def Keyed : UndoAction → Prop
  | .variable a before after => ∀ v, before = some v ∨ after = some v → v.address = a
  | symbol key before after => ∀ s, before = some s ∨ after = some s → s.key = key
  | tag key before after => ∀ r, before = some r ∨ after = some r → r.key = key
  | _ => True

end UndoAction

structure UndoLog.Keyed (log : UndoLog) : Prop where
  group : ∀ action ∈ log.group, action.Keyed
  past : ∀ entry ∈ log.past, ∀ action ∈ entry, action.Keyed
  future : ∀ entry ∈ log.future, ∀ action ∈ entry, action.Keyed

namespace UndoLog

variable {log : UndoLog}

theorem record_keyed (keyed : log.Keyed) {action : UndoAction} (own : action.Keyed) :
    (log.record action).Keyed := by
  unfold record
  split
  · exact keyed
  · split
    · refine ⟨fun other member => ?_, keyed.past, fun _ member => (nomatch member)⟩
      rcases List.mem_append.1 member with older | here
      · exact keyed.group other older
      · exact List.mem_singleton.1 here ▸ own
    · refine ⟨keyed.group, fun entry member => ?_, fun _ member => (nomatch member)⟩
      rcases List.mem_cons.1 member with rfl | older
      · exact fun other here => List.mem_singleton.1 here ▸ own
      · exact keyed.past entry older

theorem commit_keyed (keyed : log.Keyed) : log.commit.1.Keyed := by
  unfold commit
  split
  · exact keyed
  · split
    · exact ⟨keyed.group, keyed.past, keyed.future⟩
    · refine ⟨fun _ member => (nomatch member), fun entry member => ?_, keyed.future⟩
      rcases List.mem_cons.1 member with rfl | older
      · exact keyed.group
      · exact keyed.past entry older
  · exact ⟨keyed.group, keyed.past, keyed.future⟩

theorem empty_keyed : empty.Keyed :=
  ⟨fun _ member => (nomatch member), fun _ member => (nomatch member),
    fun _ member => (nomatch member)⟩

theorem clear_keyed (log : UndoLog) : log.clear.Keyed :=
  ⟨empty_keyed.group, empty_keyed.past, empty_keyed.future⟩

end UndoLog

structure Space.Keyed (s : Space) : Prop where
  map : s.map.Filed
  metadata : s.metadata.Keyed
  undoLog : s.undoLog.Keyed

end BinaryAtlas
