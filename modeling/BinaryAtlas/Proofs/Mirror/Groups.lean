import BinaryAtlas.Proofs.Mirror.Records
import BinaryAtlas.Space.Strings

/-!
How whole groups of tags and strings are told, when they go with something else or take the place of
others.
-/

set_option autoImplicit false

namespace BinaryAtlas

namespace Table

variable {K V W : Type} [Ord K] [Std.TransOrd K] [Std.LawfulEqOrd K] {t : Table K V} {key : V → K}

omit [Std.TransOrd K] in
theorem FiledBy.unique (filed : t.FiledBy key) {v w : V} (held : t.get? (key v) = some v)
    (member : w ∈ t.values) (same : key w = key v) : w = v := by
  obtain ⟨k, held'⟩ := (mem_values_iff t w).1 member
  rw [← filed held', same, held] at held'
  exact (Option.some.inj held').symm

omit [Std.TransOrd K] in
theorem get?_foldl_erase {items : List V} {k : K} (u : Table K W)
    (nothing : (∃ v ∈ items, key v = k) ∨ u.get? k = none) :
    (items.foldl (fun u v => u.erase (key v)) u).get? k = none := by
  classical
  induction items generalizing u with
  | nil => exact nothing.resolve_left fun ⟨_, member, _⟩ => nomatch member
  | cons v rest ih =>
    refine ih (u.erase (key v)) ?_
    rw [get?_erase]
    rcases nothing with ⟨w, member, here⟩ | nothing
    · rcases List.mem_cons.1 member with rfl | later
      · exact .inr (if_pos here.symm)
      · exact .inl ⟨w, later, here⟩
    · exact .inr (by rw [nothing, ite_self])

omit [Std.TransOrd K] in
theorem get?_foldl_erase_of_ne {items : List V} {k : K} (u : Table K W)
    (other : ∀ v ∈ items, key v ≠ k) :
    (items.foldl (fun u v => u.erase (key v)) u).get? k = u.get? k := by
  induction items generalizing u with
  | nil => rfl
  | cons v rest ih =>
    rw [List.foldl_cons, ih _ fun v member => other v (List.mem_cons_of_mem _ member),
      get?_erase_of_ne _ (other v List.mem_cons_self).symm]

theorem get?_foldl_insert_same {items : List V} {k : K} {w : W} {g : V → W} (u : Table K W)
    (agree : ∀ v ∈ items, key v = k → g v = w)
    (there : (∃ v ∈ items, key v = k) ∨ u.get? k = some w) :
    (items.foldl (fun u v => u.insert (key v) (g v)) u).get? k = some w := by
  classical
  induction items generalizing u with
  | nil => exact there.resolve_left fun ⟨_, member, _⟩ => nomatch member
  | cons v rest ih =>
    refine ih (u.insert (key v) (g v)) (fun v member => agree v (List.mem_cons_of_mem _ member)) ?_
    rw [get?_insert]
    by_cases here : k = key v
    · exact .inr (by rw [if_pos here, agree v List.mem_cons_self here.symm])
    · rcases there with ⟨w, member, same⟩ | there
      · rcases List.mem_cons.1 member with rfl | later
        · exact absurd same.symm here
        · exact .inl ⟨w, later, same⟩
      · exact .inr (by rw [if_neg here, there])

theorem get?_foldl_insert_of_ne {items : List V} {k : K} {g : V → W} (u : Table K W)
    (other : ∀ v ∈ items, key v ≠ k) :
    (items.foldl (fun u v => u.insert (key v) (g v)) u).get? k = u.get? k := by
  induction items generalizing u with
  | nil => rfl
  | cons v rest ih =>
    rw [List.foldl_cons, ih _ fun v member => other v (List.mem_cons_of_mem _ member),
      get?_insert_of_ne _ _ (other v List.mem_cons_self).symm]

theorem foldl_erase_values (filed : t.FiledBy key) (gone : V → Bool) (f : V → W) :
    (t.values.filter gone).foldl (fun u v => u.erase (key v)) (t.mapValues fun _ => f) =
      (t.filter fun _ v => !gone v).mapValues fun _ => f := by
  apply ext_get?
  intro k
  rw [get?_mapValues, get?_filter]
  cases held : t.get? k with
  | none => exact get?_foldl_erase _ (.inr (by rw [get?_mapValues, held]; rfl))
  | some v =>
    obtain rfl := filed held
    cases goes : gone v with
    | true =>
      have member := List.mem_filter.2 ⟨(mem_values_iff t v).2 ⟨_, held⟩, goes⟩
      rw [get?_foldl_erase _ (.inl ⟨v, member, rfl⟩), Option.filter_some, if_neg (by simp [goes])]
      rfl
    | false =>
      -- No other record has this key, so none that goes takes it along.
      have other : ∀ w ∈ t.values.filter gone, key w ≠ key v := by
        intro w member same
        obtain ⟨member, goes'⟩ := List.mem_filter.1 member
        rw [filed.unique held member same, goes] at goes'
        cases goes'
      rw [get?_foldl_erase_of_ne _ other, get?_mapValues, held, Option.filter_some,
        if_pos (by simp [goes])]

theorem foldl_insert_values (filed : t.FiledBy key) {changes : V → Bool} {f g : V → W}
    (others : ∀ v, changes v = false → g v = f v) :
    (t.values.filter changes).foldl (fun u v => u.insert (key v) (g v)) (t.mapValues fun _ => f) =
      t.mapValues fun _ => g := by
  apply ext_get?
  intro k
  rw [get?_mapValues]
  cases held : t.get? k with
  | none =>
    have other : ∀ v ∈ t.values.filter changes, key v ≠ k := by
      rintro v member rfl
      obtain ⟨k, held'⟩ := (mem_values_iff t v).1 (List.mem_filter.1 member).1
      rw [filed held', held'] at held
      cases held
    rw [get?_foldl_insert_of_ne _ other, get?_mapValues, held]
    rfl
  | some v =>
    obtain rfl := filed held
    refine get?_foldl_insert_same _ (fun w member same => ?_) ?_
    · rw [filed.unique held (List.mem_filter.1 member).1 same]
    · cases goes : changes v with
      | true => exact .inl ⟨v, List.mem_filter.2 ⟨(mem_values_iff t v).2 ⟨_, held⟩, goes⟩, rfl⟩
      | false => exact .inr (by rw [get?_mapValues, held, Option.map_some, others v goes])

end Table

namespace TagReference

/-- A tag with other data, where it is the one meant. -/
def withData (r : TagReference) (id : Uuid) (data : String) : TagReference :=
  if r.tag.id == id then { r with tag := { r.tag with data := data } } else r

theorem withData_key (r : TagReference) (id : Uuid) (data : String) :
    (r.withData id data).key = r.key := by
  unfold withData
  split <;> rfl

theorem withData_bare (r : TagReference) {id : Uuid} {data : String}
    (same : (r.tag.id == id && r.tag.data != data) = false) :
    (r.withData id data).bare = r.bare := by
  unfold withData
  split
  · rename_i here
    rw [here, Bool.true_and, bne_eq_false_iff_eq] at same
    rw [← same]
  · rfl

end TagReference

namespace Space

open Op

variable {s : Space}

section TagTypes

theorem addTagType_mirrored (type : TagType) : Mirrored (addTagType type) :=
  mirrored_bind (mirrored_read _) fun _ =>
    mirrored_bind (editMetadata_mirrored fun _ => ⟨rfl, rfl, rfl, rfl, rfl⟩) fun _ =>
      mirrored_ite (mirrored_pure ()) (emit_mirrored fun _ => rfl)

theorem createTagType_mirrored (name icon : String) : Mirrored (createTagType name icon) :=
  mirrored_bind freshId_mirrored fun _ => mirrored_bind (addTagType_mirrored _) fun _ =>
    mirrored_pure _

theorem hearAll_tagRemoved (m : Mirror) (items : List TagReference) :
    m.hearAll (items.map .tagRemoved) =
      { m with tags := items.foldl (fun t r => t.erase r.key) m.tags } := by
  induction items generalizing m with
  | nil => rfl
  | cons r rest ih => exact ih (m.hear (.tagRemoved r))

theorem hearAll_tagUpdated (m : Mirror) (items : List TagReference) :
    m.hearAll (items.map .tagUpdated) =
      { m with tags := items.foldl (fun t r => t.insert r.key r.bare) m.tags } := by
  induction items generalizing m with
  | nil => rfl
  | cons r rest ih => exact ih (m.hear (.tagUpdated r))

theorem removeTagType_mirrored (id : Uuid) : Mirrored (removeTagType id) := by
  intro s keyed
  refine leads_read_bind ?_
  split
  · exact leads_pure ⟨keyed, rfl⟩
  · rename_i type held
    refine leads_read_bind (leads_modify_bind rfl (follows_bind (emit_follows ?_ ?_) fun _ =>
      mirrored_pure true))
    · exact withMetadata_keyed keyed
        { keyed.metadata with tags := keyed.metadata.tags.filter _ }
    · rw [Mirror.hearAll_append, hearAll_tagRemoved]
      exact congrArg (fun tags => { s.mirror with tags := tags })
        (Table.foldl_erase_values keyed.metadata.tags (·.tag.type == id) TagReference.bare)

theorem records_leads {γ : Type} {copy : Mirror} {goal : Unit → Space → Mirror → Prop}
    {items : List γ} {action : γ → UndoAction} (own : ∀ item ∈ items, (action item).Keyed)
    (keyed : s.undoLog.Keyed)
    (here : ∀ log : UndoLog, log.Keyed → goal () { s with undoLog := log } copy) :
    (forEach (fun item => record (action item)) items).Leads s copy goal := by
  induction items generalizing s with
  | nil => exact leads_pure (here s.undoLog keyed)
  | cons item rest ih =>
    exact leads_modify_bind rfl (ih (fun item member => own item (List.mem_cons_of_mem _ member))
      (UndoLog.record_keyed keyed (own item List.mem_cons_self)) here)

theorem updateTag_mirrored (id : Uuid) (data : String) : Mirrored (updateTag id data) := by
  intro s keyed
  have filed := keyed.metadata.tags
  refine leads_read_bind (leads_modify_bind rfl ?_)
  refine leads_bind (records_leads (fun r member => ?_) keyed.undoLog fun log log_keyed => ?_)
  · have member := (List.mem_filter.1 member).1
    have here := (List.mem_filter.1 member).2
    simp only [Bool.and_eq_true, beq_iff_eq] at here
    rintro w (older | newer)
    · cases older
      simp only [TagReference.key, here.1]
    · cases newer
      simp only [TagReference.key, here.1]
  · refine follows_bind (emit_follows ⟨keyed.map,
      { keyed.metadata with tags := filed.mapValues (·.withData_key id data) }, log_keyed⟩ ?_)
      fun _ => mirrored_pure _
    -- Those that are told of are the ones that have been changed.
    have retold : (s.metadata.tags.values.filter fun r => r.tag.id == id && r.tag.data != data).map
        (fun r => ChangeEvent.tagUpdated { r with tag := { r.tag with data := data } }) =
          ((s.metadata.tags.values.filter fun r => r.tag.id == id && r.tag.data != data).map
            (·.withData id data)).map .tagUpdated := by
      rw [List.map_map]
      refine List.map_congr_left fun r member => ?_
      have here := (List.mem_filter.1 member).2
      rw [Bool.and_eq_true] at here
      exact congrArg ChangeEvent.tagUpdated (if_pos here.1).symm
    have kept := Table.foldl_insert_values filed (f := TagReference.bare)
      (g := fun r => (r.withData id data).bare) fun r => r.withData_bare
    rw [retold, hearAll_tagUpdated, List.foldl_map]
    simp only [TagReference.withData_key]
    exact congrArg (fun tags => { s.mirror with tags := tags })
      (kept.trans (Table.mapValues_mapValues s.metadata.tags _ _).symm)

theorem removeTagsOfType_mirrored (a : Word) (type : Uuid) (auto : Bool) :
    Mirrored (removeTagsOfType a type auto) :=
  mirrored_bind (mirrored_read _) fun _ => removeTags_mirrored a auto _

end TagTypes

section Strings

theorem hearAll_stringRemoved (m : Mirror) (items : List StringReference) :
    m.hearAll (items.map .stringRemoved) =
      { m with strings := items.foldl (fun t s => t.erase s.start) m.strings } := by
  induction items generalizing m with
  | nil => rfl
  | cons s rest ih => exact ih (m.hear (.stringRemoved s))

theorem foldl_erase_strings {t : Table Word StringReference} (filed : t.FiledBy (·.start))
    (items : List StringReference) :
    (items.foldl (fun t s => t.erase s.start) t).FiledBy (·.start) := by
  induction items generalizing t with
  | nil => exact filed
  | cons s rest ih => exact ih (filed.erase s.start)

theorem foldl_found (skips : Table Word StringReference → StringReference → Bool) {m : Mirror}
    (found : List StringReference) {t : Table Word StringReference} {events : List ChangeEvent}
    (filed : t.FiledBy (·.start)) (heard : m.hearAll events = { m with strings := t }) :
    let after := found.foldl (fun acc s => if skips acc.1 s then acc else (acc.1.insert s.start s,
      acc.2 ++ (acc.1.get? s.start).toList.map ChangeEvent.stringRemoved ++ [.stringFound s]))
        (t, events)
    after.1.FiledBy (·.start) ∧ m.hearAll after.2 = { m with strings := after.1 } := by
  induction found generalizing t events with
  | nil => exact ⟨filed, heard⟩
  | cons s rest ih =>
    simp only [List.foldl_cons]
    cases skips t s with
    | true => exact ih filed heard
    | false =>
      refine ih (filed.insert rfl) ?_
      rw [Mirror.hearAll_append, Mirror.hearAll_append, heard]
      cases held : t.get? s.start with
      | none => rfl
      | some old =>
        -- The string that goes began where the new one does, so its place is filled again.
        have place := filed held
        show { m with strings := (t.erase old.start).insert s.start s } = _
        rw [show old.start = s.start from place, Table.insert_erase]

theorem replaceStrings_mirrored (range : AddressRange) (found : List StringReference) :
    Mirrored (replaceStrings range found) := by
  intro s keyed
  refine leads_read_bind ?_
  have facts := foldl_found (m := s.mirror)
    (fun t string => !range.contains string.start || t.get? string.start == some string) found
    (foldl_erase_strings keyed.metadata.strings
      (((s.metadata.strings.between range.start range.stop).map (·.2)).filter
        (!found.contains ·))) (hearAll_stringRemoved s.mirror _)
  obtain ⟨filed, heard⟩ := facts
  exact leads_modify_bind rfl (tellQuietly_follows
    (withMetadata_keyed keyed { keyed.metadata with strings := filed }) heard)

end Strings

end Space

end BinaryAtlas
