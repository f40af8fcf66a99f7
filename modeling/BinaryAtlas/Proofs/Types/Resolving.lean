import BinaryAtlas.Proofs.TableSearch
import BinaryAtlas.Space.Types
import Mathlib.Logic.Relation

/-!
How a name of the library is looked up. Names may refer to names, so a look-up goes on from name to
name until a type ends it, a name has no record, or a name comes again.
-/

set_option autoImplicit false

namespace BinaryAtlas

namespace TypeLibrary

variable {types : Table String TypeRecord} {name current next last : String}

/-- The type of the one name is no more than the other name. -/
def Refers (types : Table String TypeRecord) (name next : String) : Prop :=
  ∃ r width, types.get? name = some r ∧ r.type = .named next width

/-- The one name leads to the other, reference by reference. -/
def Leads (types : Table String TypeRecord) : String → String → Prop :=
  Relation.ReflTransGen (Refers types)

/-- From wherever a name leads, another reference leads on. -/
def Circular (types : Table String TypeRecord) (name : String) : Prop :=
  ∀ last, Leads types name last → ∃ next, Refers types last next

/-- No reference leads on from the type of a name: it is concrete, or what it refers to has no
record. -/
def Closes (types : Table String TypeRecord) (last : String) (type : DataType) : Prop :=
  ∃ r, types.get? last = some r ∧ r.type = type ∧
    (type.isNamed = false ∨ ∃ gone width, type = .named gone width ∧ types.get? gone = none)

/-- The look-up of a name, at present at `current`, ends with an answer after so many turns. Each
turn visits one name, and there is no limit to the turns. -/
inductive Ends (types : Table String TypeRecord) (name : String) :
    Nat → List String → String → Option DataType → Except AtlasError (Option DataType) → Prop where
  | again {seen : List String} {current : String} {latest : Option DataType}
      (visited : current ∈ seen) : Ends types name 1 seen current latest (.error (.typeCycle name))
  | dangling {seen : List String} {current : String} {latest : Option DataType}
      (new : current ∉ seen) (absent : types.get? current = none) :
      Ends types name 1 seen current latest (.ok latest)
  | concrete {seen : List String} {current : String} {latest : Option DataType} {r : TypeRecord}
      (new : current ∉ seen) (held : types.get? current = some r) (plain : r.type.isNamed = false) :
      Ends types name 1 seen current latest (.ok (some r.type))
  | onward {turns : Nat} {seen : List String} {current next : String} {latest : Option DataType}
      {r : TypeRecord} {width : Word} {answer : Except AtlasError (Option DataType)}
      (new : current ∉ seen) (held : types.get? current = some r)
      (refers : r.type = .named next width)
      (later : Ends types name turns (current :: seen) next (some r.type) answer) :
      Ends types name (turns + 1) seen current latest answer

theorem refers_unique (types : Table String TypeRecord) : Relator.RightUnique (Refers types) := by
  rintro name next other ⟨r, width, held, names⟩ ⟨r', width', held', names'⟩
  rw [held] at held'
  cases held'
  rw [names] at names'
  cases names'
  rfl

theorem named_or_concrete (type : DataType) :
    (∃ next width, type = .named next width) ∨ type.isNamed = false := by
  cases type with
  | named next width => exact .inl ⟨next, width, rfl⟩
  | _ => exact .inr rfl

/-- With room for all its turns, the bounded look-up gives the same answer. -/
theorem Ends.follow {turns fuel : Nat} {seen : List String} {latest : Option DataType}
    {answer : Except AtlasError (Option DataType)}
    (ends : Ends types name turns seen current latest answer) (room : turns ≤ fuel) :
    TypeLibrary.follow types name fuel seen current latest = answer := by
  induction ends generalizing fuel with
  | again visited =>
    obtain ⟨fuel, rfl⟩ := Nat.exists_eq_add_of_le' room
    simp [TypeLibrary.follow, visited]
  | dangling new absent =>
    obtain ⟨fuel, rfl⟩ := Nat.exists_eq_add_of_le' room
    simp [TypeLibrary.follow, new, absent]
  | @concrete seen current latest r new held plain =>
    obtain ⟨fuel, rfl⟩ := Nat.exists_eq_add_of_le' room
    simp only [TypeLibrary.follow, List.contains_iff_mem, new, if_false, held]
    cases shape : r.type with
    | named next width => rw [shape] at plain; cases plain
    | _ => rfl
  | @onward turns seen current next latest r width answer new held refers later ih =>
    obtain ⟨fuel, rfl⟩ := Nat.exists_eq_add_of_le' (Nat.le_trans (Nat.le_add_left 1 turns) room)
    simp only [TypeLibrary.follow, List.contains_iff_mem, new, if_false, held, refers]
    rw [← refers]
    exact ih (by omega)

theorem stored_length {seen : List String} (distinct : seen.Nodup) (stored : seen ⊆ types.keys) :
    seen.length ≤ types.size := by
  have := (List.subperm_of_subset distinct stored).length_le
  rwa [Table.keys, List.length_map] at this

/-- Only names with a record are visited on the way. So a look-up takes no more turns than there are
records, and one for its end. -/
theorem exists_ends (name : String) {seen : List String} (distinct : seen.Nodup)
    (stored : seen ⊆ types.keys) (current : String) (latest : Option DataType) :
    ∃ turns answer, turns + seen.length ≤ types.size + 1 ∧
      Ends types name turns seen current latest answer := by
  have within := stored_length distinct stored
  by_cases visited : current ∈ seen
  · exact ⟨1, _, by omega, .again visited⟩
  · cases held : types.get? current with
    | none => exact ⟨1, _, by omega, .dangling visited held⟩
    | some r =>
      rcases named_or_concrete r.type with ⟨next, width, refers⟩ | plain
      · have known : current ∈ types.keys := (types.mem_keys_iff current).2 ⟨r, held⟩
        have distinct' := List.nodup_cons.2 ⟨visited, distinct⟩
        have stored' := List.cons_subset.2 ⟨known, stored⟩
        -- The visited names fill up the table, so the turns come to an end.
        have longer := stored_length distinct' stored'
        obtain ⟨turns, answer, bound, later⟩ :=
          exists_ends name distinct' stored' next (some r.type)
        rw [List.length_cons] at bound
        exact ⟨turns + 1, answer, by omega, .onward visited held refers later⟩
      · exact ⟨1, _, by omega, .concrete visited held plain⟩
termination_by types.size - seen.length
decreasing_by
  rw [List.length_cons] at longer ⊢
  omega

/-- What a look-up has found out when it comes to a name. -/
structure Visits (types : Table String TypeRecord) (name : String) (seen : List String)
    (current : String) (latest : Option DataType) : Prop where
  start : name = current ∨ name ∈ seen
  onward : ∀ x ∈ seen, ∃ y, Refers types x y ∧ (y = current ∨ y ∈ seen)
  reached : Leads types name current
  none_yet : latest = none → current = name
  latest : ∀ type, latest = some type → ∃ x r width, Leads types name x ∧
    types.get? x = some r ∧ r.type = type ∧ type = .named current width

theorem visits_first (types : Table String TypeRecord) (name : String) :
    Visits types name [] name none where
  start := .inl rfl
  onward _ member := nomatch member
  reached := .refl
  none_yet _ := rfl
  latest _ none_yet := nomatch none_yet

theorem Visits.step {seen : List String} {latest : Option DataType} {r : TypeRecord} {width : Word}
    (visits : Visits types name seen current latest) (held : types.get? current = some r)
    (refers : r.type = .named next width) :
    Visits types name (current :: seen) next (some r.type) where
  start := .inr (by
    rcases visits.start with rfl | earlier
    · exact List.mem_cons_self
    · exact List.mem_cons_of_mem _ earlier)
  onward x member := by
    rcases List.mem_cons.1 member with rfl | earlier
    · exact ⟨next, ⟨r, width, held, refers⟩, .inl rfl⟩
    · obtain ⟨y, leads, there⟩ := visits.onward x earlier
      exact ⟨y, leads, .inr (List.mem_cons.2 there)⟩
  reached := visits.reached.tail ⟨r, width, held, refers⟩
  none_yet := by rintro ⟨⟩
  latest type is := by
    cases is
    exact ⟨current, r, width, visits.reached, held, rfl, refers⟩

/-- What the answer to a look-up says about the references. -/
def Answers (types : Table String TypeRecord) (name : String) :
    Except AtlasError (Option DataType) → Prop
  | .error e => e = .typeCycle name ∧ Circular types name
  | .ok none => types.get? name = none
  | .ok (some type) => ∃ last, Leads types name last ∧ Closes types last type

/-- When a name comes again, all that the look-up can ever reach has been visited. -/
theorem Visits.circular {seen : List String} {latest : Option DataType}
    (visits : Visits types name seen current latest) (visited : current ∈ seen)
    (leads : Leads types name last) : ∃ next, Refers types last next := by
  have still : last ∈ seen := by
    induction leads with
    | refl => exact visits.start.elim (fun same => same ▸ visited) id
    | tail _ refers ih =>
      obtain ⟨y, onward, there⟩ := visits.onward _ ih
      obtain rfl := refers_unique types onward refers
      exact there.elim (fun same => same ▸ visited) id
  obtain ⟨y, refers, -⟩ := visits.onward last still
  exact ⟨y, refers⟩

theorem Ends.answers {turns : Nat} {seen : List String} {latest : Option DataType}
    {answer : Except AtlasError (Option DataType)}
    (ends : Ends types name turns seen current latest answer)
    (visits : Visits types name seen current latest) : Answers types name answer := by
  induction ends with
  | again visited => exact ⟨rfl, fun _ leads => visits.circular visited leads⟩
  | @dangling seen current latest new absent =>
    cases latest with
    | none =>
      rw [visits.none_yet rfl] at absent
      exact absent
    | some type =>
      obtain ⟨x, r, width, leads, held, is, refers⟩ := visits.latest type rfl
      exact ⟨x, leads, r, held, is, .inr ⟨_, width, refers, absent⟩⟩
  | concrete new held plain => exact ⟨_, visits.reached, _, held, rfl, .inl plain⟩
  | onward new held refers later ih => exact ih (visits.step held refers)

section Apart

variable {type : DataType}

theorem leads_absent (absent : types.get? name = none) (leads : Leads types name last) :
    last = name := by
  rcases leads.cases_head with same | ⟨next, ⟨r, width, held, -⟩, -⟩
  · exact same.symm
  · rw [absent] at held
    cases held

/-- Where a reference leads on all the same, it leads to a name without a record. -/
theorem Closes.absent_behind (closes : Closes types last type) (refers : Refers types last next) :
    types.get? next = none := by
  obtain ⟨r, held, rfl, ending⟩ := closes
  obtain ⟨r', width, held', names⟩ := refers
  rw [held] at held'
  cases held'
  rcases ending with plain | ⟨gone, width', names', absent⟩
  · rw [names] at plain
    cases plain
  · rw [names] at names'
    cases names'
    exact absent

theorem Closes.held (closes : Closes types last type) : types.get? last ≠ none := by
  obtain ⟨r, held, -⟩ := closes
  simp [held]

theorem Closes.start_held (closes : Closes types last type) (leads : Leads types name last) :
    types.get? name ≠ none := by
  intro absent
  rw [leads_absent absent leads] at closes
  exact closes.held absent

/-- Behind a name at which a chain closes, it closes nowhere else. -/
theorem Closes.last_unique {last' : String} {type' : DataType} (closes : Closes types last type)
    (closes' : Closes types last' type') (leads : Leads types last last') : last' = last := by
  rcases leads.cases_head with same | ⟨next, refers, rest⟩
  · exact same.symm
  · exact absurd (closes.absent_behind refers) (closes'.start_held rest)

theorem Closes.unique {last' : String} {type' : DataType} (closes : Closes types last type)
    (closes' : Closes types last' type') (leads : Leads types name last)
    (leads' : Leads types name last') : type = type' := by
  have same : last = last' := by
    rcases leads.total_of_right_unique (refers_unique types) leads' with onward | back
    · exact (closes.last_unique closes' onward).symm
    · exact closes'.last_unique closes back
  subst same
  obtain ⟨r, held, rfl, -⟩ := closes
  obtain ⟨r', held', rfl, -⟩ := closes'
  rw [held] at held'
  cases held'
  rfl

theorem Circular.held (circular : Circular types name) : types.get? name ≠ none := by
  obtain ⟨next, r, width, held, -⟩ := circular name .refl
  simp [held]

theorem Circular.not_closes (circular : Circular types name) (leads : Leads types name last) :
    ¬ Closes types last type := by
  intro closes
  obtain ⟨next, refers⟩ := circular last leads
  obtain ⟨-, r, width, held, -⟩ := circular next (leads.tail refers)
  rw [closes.absent_behind refers] at held
  cases held

end Apart

end TypeLibrary

namespace Space

open TypeLibrary

/-- A look-up ends after no more turns than there are names with a record, and one. It fails exactly
if the references from the name go on for ever, finds nothing exactly if the name has no record, and
otherwise finds what the references lead to: the first concrete type, or the reference to a name
without a record. -/
theorem type?_follows_references (s : Space) (name : String) :
    (∃ turns ≤ s.metadata.types.size + 1,
      Ends s.metadata.types name turns [] name none (s.type? name)) ∧
    (∀ e, s.type? name = .error e ↔ e = .typeCycle name ∧ Circular s.metadata.types name) ∧
    (s.type? name = .ok none ↔ s.metadata.types.get? name = none) ∧
    ∀ type, s.type? name = .ok (some type) ↔
      ∃ last, Leads s.metadata.types name last ∧ Closes s.metadata.types last type := by
  obtain ⟨turns, answer, bound, ends⟩ :=
    exists_ends name List.nodup_nil (List.nil_subset s.metadata.types.keys) name none
  have found : s.type? name = answer := ends.follow (Nat.le_succ_of_le bound)
  have answers : Answers s.metadata.types name answer := ends.answers (visits_first _ name)
  rw [found]
  refine ⟨⟨turns, bound, ends⟩, ?_⟩
  match answer, answers with
  | .error e, ⟨is, circular⟩ =>
    refine ⟨fun other => ?_, ?_, fun type => ?_⟩
    · simp [is, circular, eq_comm]
    · simp [circular.held]
    · simpa using fun last leads => circular.not_closes leads
  | .ok none, absent =>
    have absent : s.metadata.types.get? name = none := absent
    refine ⟨fun other => ?_, by simp [absent], fun type => ?_⟩
    · simpa using fun _ circular => circular.held absent
    · simpa using fun last leads closes => Closes.start_held closes leads absent
  | .ok (some type), ⟨last, leads, closes⟩ =>
    refine ⟨fun other => ?_, ?_, fun type' => ⟨?_, ?_⟩⟩
    · simpa using fun _ circular => circular.not_closes leads closes
    · simpa using closes.start_held leads
    · rintro ⟨⟩
      exact ⟨last, leads, closes⟩
    · rintro ⟨last', leads', closes'⟩
      rw [closes.unique closes' leads leads']

/-- A name from which references lead into a circle of others is the one the failure names. -/
example : (resolve (.ofList [("a", ⟨.fresh 0, .named "b" 4, true⟩),
    ("b", ⟨.fresh 1, .named "c" 4, true⟩), ("c", ⟨.fresh 2, .named "b" 4, true⟩)]) "a") =
      .error (.typeCycle "a") := by
  decide +kernel

end Space

end BinaryAtlas
