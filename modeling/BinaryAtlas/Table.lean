/-!
Finite tables in key order. A table is the strictly ascending list of its entries, so two tables
with the same look-ups are equal, and a walk over the entries meets the keys in order.
-/

set_option autoImplicit false

namespace BinaryAtlas

/-- A finite map from keys to values, held as its entries in strictly ascending key order. -/
structure Table (K V : Type) [Ord K] where
  entries : List (K × V)
  ascending : entries.Pairwise (fun a b => compare a.1 b.1 = .lt)

namespace Table

section Entries

variable {K V : Type} [Ord K]

def place (k : K) (v : V) : List (K × V) → List (K × V)
  | [] => [(k, v)]
  | e :: rest =>
    match compare k e.1 with
    | .lt => (k, v) :: e :: rest
    | .eq => (k, v) :: rest
    | .gt => e :: place k v rest

theorem mem_place {k : K} {v : V} {e : K × V} {l : List (K × V)} (h : e ∈ place k v l) :
    e = (k, v) ∨ e ∈ l := by
  induction l with
  | nil => simpa [place] using h
  | cons x rest ih =>
    unfold place at h
    split at h
    · simpa using h
    · simp at h; rcases h with h | h <;> simp [h]
    · simp only [List.mem_cons] at h ⊢
      rcases h with h | h
      · exact .inr (.inl h)
      · rcases ih h with h | h <;> simp [h]

variable [Std.TransOrd K] [Std.LawfulEqOrd K]

theorem pairwise_place (k : K) (v : V) {l : List (K × V)}
    (h : l.Pairwise (fun a b => compare a.1 b.1 = .lt)) :
    (place k v l).Pairwise (fun a b => compare a.1 b.1 = .lt) := by
  induction l with
  | nil => simp [place]
  | cons x rest ih =>
    rw [List.pairwise_cons] at h
    unfold place
    split
    · rename_i hk
      refine List.pairwise_cons.2 ⟨fun e he => ?_, List.pairwise_cons.2 h⟩
      rcases List.mem_cons.1 he with rfl | he
      · exact hk
      · exact Std.TransCmp.lt_trans hk (h.1 e he)
    · rename_i hk
      rw [Std.compare_eq_iff_eq] at hk
      subst hk
      exact List.pairwise_cons.2 ⟨h.1, h.2⟩
    · rename_i hk
      refine List.pairwise_cons.2 ⟨fun e he => ?_, ih h.2⟩
      rcases mem_place he with rfl | he
      · exact Std.OrientedCmp.lt_of_gt hk
      · exact h.1 e he

end Entries

variable {K V : Type} [Ord K]

def empty : Table K V := ⟨[], .nil⟩

instance : EmptyCollection (Table K V) := ⟨empty⟩
instance : Inhabited (Table K V) := ⟨empty⟩

theorem ext_entries {s t : Table K V} (h : s.entries = t.entries) : s = t := by
  cases s; cases t; cases h; rfl

instance [DecidableEq K] [DecidableEq V] : DecidableEq (Table K V) := fun s t =>
  decidable_of_iff (s.entries = t.entries) ⟨ext_entries, fun h => h ▸ rfl⟩

def keys (t : Table K V) : List K := t.entries.map (·.1)

def values (t : Table K V) : List V := t.entries.map (·.2)

def size (t : Table K V) : Nat := t.entries.length

def isEmpty (t : Table K V) : Bool := t.entries.isEmpty

def get? (t : Table K V) (k : K) : Option V :=
  (t.entries.find? (fun e => compare e.1 k == .eq)).map (·.2)

@[simp] theorem get?_empty (k : K) : (empty : Table K V).get? k = none := rfl

def contains (t : Table K V) (k : K) : Bool := (t.get? k).isSome

def filter (t : Table K V) (keep : K → V → Bool) : Table K V :=
  ⟨t.entries.filter (fun e => keep e.1 e.2), t.ascending.filter _⟩

def erase (t : Table K V) (k : K) : Table K V :=
  t.filter (fun k' _ => compare k' k != .eq)

def mapValues {W : Type} (t : Table K V) (f : K → V → W) : Table K W :=
  ⟨t.entries.map (fun e => (e.1, f e.1 e.2)),
    t.ascending.map (fun e : K × V => (e.1, f e.1 e.2)) (fun _ _ h => h)⟩

def atOrBelow? (t : Table K V) (k : K) : Option (K × V) :=
  (t.entries.filter (fun e => (compare e.1 k).isLE)).getLast?

def below? (t : Table K V) (k : K) : Option (K × V) :=
  (t.entries.filter (fun e => (compare e.1 k).isLT)).getLast?

def atOrAbove? (t : Table K V) (k : K) : Option (K × V) :=
  t.entries.find? (fun e => (compare e.1 k).isGE)

def above? (t : Table K V) (k : K) : Option (K × V) :=
  t.entries.find? (fun e => (compare e.1 k).isGT)

def between (t : Table K V) (lo hi : K) : List (K × V) :=
  t.entries.filter (fun e => (compare e.1 lo).isGE && (compare e.1 hi).isLT)

variable [Std.TransOrd K] [Std.LawfulEqOrd K]

def insert (t : Table K V) (k : K) (v : V) : Table K V :=
  ⟨place k v t.entries, pairwise_place k v t.ascending⟩

def ofList (l : List (K × V)) : Table K V :=
  l.foldl (fun t e => t.insert e.1 e.2) empty

def alter (t : Table K V) (k : K) (f : Option V → Option V) : Table K V :=
  match f (t.get? k) with
  | some v => t.insert k v
  | none => t.erase k

omit [Std.TransOrd K] in
theorem get?_eq_some_iff {t : Table K V} {k : K} {v : V} :
    t.get? k = some v ↔ (k, v) ∈ t.entries := by
  obtain ⟨l, h⟩ := t
  simp only [get?]
  induction l with
  | nil => simp
  | cons e rest ih =>
    rw [List.pairwise_cons] at h
    by_cases he : compare e.1 k = .eq
    · have hk := Std.compare_eq_iff_eq.1 he
      subst hk
      have hn : ∀ w, (e.1, w) ∉ rest := fun w hw => by
        have := h.1 _ hw
        simp at this
      simp only [List.find?_cons, he, beq_self_eq_true, Option.map_some, Option.some.injEq,
        List.mem_cons, hn, or_false]
      constructor
      · rintro rfl; rfl
      · intro hv; rw [← hv]
    · have hn : (k, v) ≠ e := by
        rintro rfl
        simp at he
      simp [he, ih h.2, hn]

omit [Std.TransOrd K] in
theorem get?_eq_none_iff {t : Table K V} {k : K} :
    t.get? k = none ↔ ∀ v, (k, v) ∉ t.entries := by
  constructor
  · intro h v hv
    rw [get?_eq_some_iff.2 hv] at h
    cases h
  · intro h
    cases hv : t.get? k with
    | none => rfl
    | some v => exact absurd (get?_eq_some_iff.1 hv) (h v)

theorem find?_place_self (k : K) (v : V) (l : List (K × V)) :
    (place k v l).find? (fun e => compare e.1 k == .eq) = some (k, v) := by
  induction l with
  | nil => simp [place]
  | cons x rest ih =>
    unfold place
    split <;> simp_all [Std.OrientedCmp.lt_of_gt]

omit [Std.TransOrd K] in
theorem find?_place_of_ne {k k' : K} (v : V) (hk : k' ≠ k) (l : List (K × V)) :
    (place k v l).find? (fun e => compare e.1 k' == .eq) =
      l.find? (fun e => compare e.1 k' == .eq) := by
  have hne : compare k k' ≠ .eq := fun h => hk (Std.compare_eq_iff_eq.1 h).symm
  induction l with
  | nil => simp [place, hne]
  | cons x rest ih =>
    unfold place
    split
    · simp [hne]
    · rename_i h
      rw [Std.compare_eq_iff_eq] at h
      subst h
      simp [hne]
    · simp [List.find?_cons, ih]

@[simp] theorem get?_insert_self (t : Table K V) (k : K) (v : V) :
    (t.insert k v).get? k = some v := by
  simp [get?, insert, find?_place_self]

theorem get?_insert_of_ne (t : Table K V) {k k' : K} (v : V) (h : k' ≠ k) :
    (t.insert k v).get? k' = t.get? k' := by
  simp [get?, insert, find?_place_of_ne v h]

omit [Std.TransOrd K] in
@[simp] theorem get?_erase_self (t : Table K V) (k : K) : (t.erase k).get? k = none := by
  rw [get?_eq_none_iff]
  intro v hv
  simp [erase, filter] at hv

omit [Std.TransOrd K] in
theorem get?_erase_of_ne (t : Table K V) {k k' : K} (h : k' ≠ k) :
    (t.erase k).get? k' = t.get? k' := by
  have hne : compare k' k ≠ .eq := fun h' => h (Std.compare_eq_iff_eq.1 h')
  cases hv : t.get? k' with
  | none =>
    rw [get?_eq_none_iff] at hv ⊢
    intro v hm
    exact hv v ((List.mem_filter.1 hm).1)
  | some v =>
    rw [get?_eq_some_iff] at hv ⊢
    exact List.mem_filter.2 ⟨hv, by simp [hne]⟩

theorem ext_get? {s t : Table K V} (h : ∀ k, s.get? k = t.get? k) : s = t := by
  apply ext_entries
  have mem : ∀ e, e ∈ s.entries ↔ e ∈ t.entries := fun e => by
    rw [show e = (e.1, e.2) from rfl, ← get?_eq_some_iff, ← get?_eq_some_iff, h]
  have irrefl : ∀ e : K × V, compare e.1 e.1 ≠ .lt := fun e he => by simp at he
  obtain ⟨l, hl⟩ := s
  obtain ⟨m, hm⟩ := t
  simp only at mem ⊢
  clear h
  induction l generalizing m with
  | nil => cases m with
    | nil => rfl
    | cons e rest => exact absurd ((mem e).2 (by simp)) (by simp)
  | cons e rest ih => cases m with
    | nil => exact absurd ((mem e).1 (by simp)) (by simp)
    | cons f other =>
      rw [List.pairwise_cons] at hl hm
      have hef : e = f := by
        rcases List.mem_cons.1 ((mem e).1 (by simp)) with he | he
        · exact he
        · rcases List.mem_cons.1 ((mem f).2 (by simp)) with hf | hf
          · exact hf.symm
          · exact absurd (Std.TransCmp.lt_trans (hl.1 f hf) (hm.1 e he)) (irrefl e)
      subst hef
      congr 1
      refine ih hl.2 other hm.2 (fun x => ?_)
      constructor
      · intro hx
        rcases List.mem_cons.1 ((mem x).1 (by simp [hx])) with rfl | h
        · exact absurd (hl.1 x hx) (irrefl x)
        · exact h
      · intro hx
        rcases List.mem_cons.1 ((mem x).2 (by simp [hx])) with rfl | h
        · exact absurd (hm.1 x hx) (irrefl x)
        · exact h

end Table

end BinaryAtlas
