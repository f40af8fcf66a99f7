import BinaryAtlas.Proofs.Mirror.Following
import BinaryAtlas.Space.Symbols
import BinaryAtlas.Space.Tags
import BinaryAtlas.Space.Types

/-!
How the definitions of variables, symbols, tags and types are told, and how they are taken back.
-/

set_option autoImplicit false

namespace BinaryAtlas

namespace Defined

variable {α : Type}

def isNews : Defined α → Bool
  | added => true
  | updated _ => true
  | _ => false

/-- What is told when a record was defined. -/
def events (added updated : α → ChangeEvent) (v : α) : Defined α → List ChangeEvent
  | .added => [added v]
  | .updated _ => [updated v]
  | _ => []

end Defined

namespace Table

variable {K V W : Type} [Ord K] [Std.TransOrd K] [Std.LawfulEqOrd K] [Provenance V]
  {t : Table K V} {k : K} {v : V}

theorem define_before {before : V} (found : (t.define k v).2.before? = some before) :
    t.get? k = some before := by
  unfold define at found
  cases held : t.get? k with
  | none => simp [held, Defined.before?] at found
  | some old =>
    simp only [held] at found
    split at found
    · simp [Defined.before?] at found
    · split at found <;> exact found

theorem define_news (news : (t.define k v).2.isNews = true) : (t.define k v).1 = t.insert k v := by
  unfold define at news ⊢
  cases held : t.get? k with
  | none => rfl
  | some old =>
    simp only [held] at news ⊢
    split
    · rename_i shadowed
      simp [shadowed, Defined.isNews] at news
    · split <;> rfl

theorem define_old {f : V → W}
    (same : ∀ before, t.get? k = some before → Provenance.sameValue before v = true →
      f before = f v) (old : (t.define k v).2.isNews = false) :
    (t.define k v).1.mapValues (fun _ => f) = t.mapValues fun _ => f := by
  classical
  unfold define at old ⊢
  cases held : t.get? k with
  | none => simp [held, Defined.isNews] at old
  | some before =>
    simp only [held] at old ⊢
    split
    · rfl
    · rename_i shadowed
      rw [if_neg shadowed] at old
      split
      · -- The same was said before, and only who said it may have changed.
        rename_i agrees
        apply ext_get?
        intro key
        rw [get?_mapValues, get?_insert, get?_mapValues]
        split
        · rename_i here
          rw [here, held, Option.map_some, Option.map_some, same before held agrees]
        · rfl
      · rename_i differs
        rw [if_neg differs] at old
        cases old

omit [Std.TransOrd K] [Std.LawfulEqOrd K] in
theorem undefine_eq_some {auto : Bool} (removed : (t.undefine k auto).2 = some v) :
    t.get? k = some v ∧ (t.undefine k auto).1 = t.erase k := by
  unfold undefine at removed ⊢
  cases held : t.get? k with
  | none => simp [held] at removed
  | some old =>
    simp only [held] at removed ⊢
    split at removed
    · cases removed
    · rename_i reached
      rw [if_neg reached]
      exact ⟨removed, rfl⟩

omit [Std.TransOrd K] [Std.LawfulEqOrd K] in
theorem undefine_eq_none {auto : Bool} (removed : (t.undefine k auto).2 = none) :
    (t.undefine k auto).1 = t := by
  unfold undefine at removed ⊢
  cases held : t.get? k with
  | none => rfl
  | some old =>
    simp only [held] at removed ⊢
    split at removed
    · rename_i shadowed
      rw [if_pos shadowed]
    · cases removed

end Table

/-- How records of one kind are heard: a copy of their table, as part of a whole copy, files what
was added or updated and takes out what was removed. -/
structure Heard {K V W : Type} [Ord K] [Std.TransOrd K] [Std.LawfulEqOrd K]
    (copy : Table K W → Mirror) (key : V → K) (bare : V → W)
    (added removed updated : V → ChangeEvent) : Prop where
  added : ∀ t v, (copy t).hear (added v) = copy (t.insert (key v) (bare v))
  removed : ∀ t v, (copy t).hear (removed v) = copy (t.erase (key v))
  updated : ∀ t v, (copy t).hear (updated v) = copy (t.insert (key v) (bare v))

namespace Heard

variable {K V W : Type} [Ord K] [Std.TransOrd K] [Std.LawfulEqOrd K] {copy : Table K W → Mirror}
  {key : V → K} {bare : V → W} {added removed updated : V → ChangeEvent} {t : Table K V} {k : K}

theorem defined [Provenance V] (heard : Heard copy key bare added removed updated)
    (filed : t.FiledBy key) {v : V}
    (same : ∀ before, Provenance.sameValue before v = true → bare before = bare v) :
    (t.define (key v) v).1.FiledBy key ∧
      (∀ w, (t.define (key v) v).2.before? = some w ∨ some v = some w → key w = key v) ∧
      (copy (t.mapValues fun _ => bare)).hearAll ((t.define (key v) v).2.events added updated v) =
        copy ((t.define (key v) v).1.mapValues fun _ => bare) := by
  refine ⟨filed.define rfl, ?_, ?_⟩
  · rintro w (older | newer)
    · exact filed (Table.define_before older)
    · cases newer
      rfl
  · cases news : (t.define (key v) v).2.isNews with
    | true =>
      rw [Table.define_news news, Table.mapValues_insert]
      generalize (t.define (key v) v).2 = outcome at news ⊢
      cases outcome with
      | added => exact heard.added _ v
      | updated before => exact heard.updated _ v
      | unchanged before => cases news
      | ignored => cases news
    | false =>
      rw [Table.define_old (fun before _ => same before) news]
      generalize (t.define (key v) v).2 = outcome at news ⊢
      cases outcome <;> first | rfl | cases news

theorem undefined [Provenance V] (heard : Heard copy key bare added removed updated)
    (filed : t.FiledBy key) (k : K) (auto : Bool) :
    (t.undefine k auto).1.FiledBy key ∧
      (∀ v, (t.undefine k auto).2 = some v ∨ none = some v → key v = k) ∧
      (copy (t.mapValues fun _ => bare)).hearAll ((t.undefine k auto).2.toList.map removed) =
        copy ((t.undefine k auto).1.mapValues fun _ => bare) := by
  refine ⟨filed.undefine k auto, ?_, ?_⟩
  · rintro v (older | newer)
    · exact filed (Table.undefine_eq_some older).1
    · cases newer
  · cases gone : (t.undefine k auto).2 with
    | none =>
      rw [Table.undefine_eq_none gone]
      rfl
    | some v =>
      obtain ⟨held, erased⟩ := Table.undefine_eq_some gone
      rw [erased, Table.mapValues_erase, ← filed held]
      exact heard.removed _ v

theorem restored [DecidableEq V] (heard : Heard copy key bare added removed updated)
    (filed : t.FiledBy key) {state : Option V} (own : ∀ v, state = some v → key v = k) :
    (copy (t.mapValues fun _ => bare)).hearAll
        (Space.transition added removed updated (t.get? k) state) =
      copy ((t.alter k fun _ => state).mapValues fun _ => bare) := by
  cases state with
  | none =>
    show _ = copy ((t.erase k).mapValues fun _ => bare)
    cases held : t.get? k with
    | none =>
      have same : (t.alter k fun _ => none) = t := Table.alter_same held
      exact congrArg (fun t : Table K V => copy (t.mapValues fun _ => bare)) same.symm
    | some old =>
      rw [Table.mapValues_erase, ← filed held]
      exact heard.removed _ old
  | some new =>
    show _ = copy ((t.insert k new).mapValues fun _ => bare)
    have place := own new rfl
    cases held : t.get? k with
    | none =>
      rw [Table.mapValues_insert, ← place]
      exact heard.added _ new
    | some old =>
      show (copy _).hearAll (if old = new then [] else [updated new]) = _
      split
      · rename_i unchanged
        have same : (t.alter k fun _ => some new) = t := Table.alter_same (unchanged ▸ held)
        exact congrArg (fun t : Table K V => copy (t.mapValues fun _ => bare)) same.symm
      · rw [Table.mapValues_insert, ← place]
        exact heard.updated _ new

end Heard

theorem DataVariable.bare_of_sameValue {v w : DataVariable}
    (same : Provenance.sameValue v w = true) : v.bare = w.bare := by
  simp only [Provenance.sameValue, Bool.and_eq_true, beq_iff_eq] at same
  simp only [bare, same]

theorem Symbol.bare_of_sameValue {s t : Symbol} (same : Provenance.sameValue s t = true) :
    s.bare = t.bare :=
  eq_of_beq same

theorem TagReference.bare_of_sameValue {r s : TagReference}
    (same : Provenance.sameValue r s = true) : r.bare = s.bare := by
  simp only [Provenance.sameValue, Bool.and_eq_true, beq_iff_eq] at same
  simp only [bare, same]

namespace Space

open Op

variable {s : Space}

section Variables

theorem heard_variables (m : Mirror) : Heard (fun t => { m with dataVariables := t })
    DataVariable.address DataVariable.bare .variableAdded .variableRemoved .variableUpdated :=
  ⟨fun _ _ => rfl, fun _ _ => rfl, fun _ _ => rfl⟩

theorem withVariables_keyed (keyed : s.Keyed) {t : Table Word DataVariable}
    (filed : t.FiledBy (·.address)) :
    Keyed { s with metadata := { s.metadata with dataVariables := t } } :=
  withMetadata_keyed keyed { keyed.metadata with dataVariables := filed }

theorem defineVariable_mirrored (v : DataVariable) : Mirrored (defineVariable v) := by
  intro s keyed
  have facts := (heard_variables s.mirror).defined keyed.metadata.dataVariables
    (v := v) fun _ => DataVariable.bare_of_sameValue
  refine leads_update_bind rfl (recordIf_bind_leads ?_)
  generalize s.metadata.dataVariables.define v.address v = defined at facts ⊢
  obtain ⟨known, outcome⟩ := defined
  obtain ⟨filed, own, heard⟩ := facts
  have noted := noted_keyed (withVariables_keyed keyed filed) (!v.auto && !outcome.isIgnored)
    (show (UndoAction.variable v.address outcome.before? (some v)).Keyed from own)
  cases outcome with
  | added => exact emit_follows noted heard
  | updated before => exact emit_follows noted heard
  | unchanged before => exact leads_pure ⟨noted, heard⟩
  | ignored => exact leads_pure ⟨noted, heard⟩

theorem undefineVariable_mirrored (a : Word) (auto : Bool) :
    Mirrored (undefineVariable a auto) := by
  intro s keyed
  have facts := (heard_variables s.mirror).undefined keyed.metadata.dataVariables a auto
  refine leads_update_bind rfl ?_
  generalize s.metadata.dataVariables.undefine a auto = undefined at facts ⊢
  obtain ⟨known, removed⟩ := undefined
  obtain ⟨filed, own, heard⟩ := facts
  cases removed with
  | none => exact leads_pure ⟨withVariables_keyed keyed filed, heard⟩
  | some v =>
    exact told_follows (withVariables_keyed keyed filed)
      (show (UndoAction.variable a (some v) none).Keyed from own) heard true

theorem restoreVariable_mirrored (a : Word) {state : Option DataVariable}
    (own : ∀ v, state = some v → v.address = a) : Mirrored (restoreVariable a state) :=
  fun s keyed => leads_read_bind (leads_modify_bind rfl (emit_follows
    (withVariables_keyed keyed (keyed.metadata.dataVariables.alter own))
    ((heard_variables s.mirror).restored keyed.metadata.dataVariables own)))

end Variables

section Symbols

theorem heard_symbols (m : Mirror) : Heard (fun t => { m with symbols := t })
    Symbol.key Symbol.bare .symbolAdded .symbolRemoved .symbolUpdated :=
  ⟨fun _ _ => rfl, fun _ _ => rfl, fun _ _ => rfl⟩

theorem withSymbols_keyed (keyed : s.Keyed) {t : Table SymbolKey Symbol}
    (filed : t.FiledBy (·.key)) :
    Keyed { s with metadata := { s.metadata with symbols := t } } :=
  withMetadata_keyed keyed { keyed.metadata with symbols := filed }

theorem defineSymbol_mirrored (symbol : Symbol) : Mirrored (defineSymbol symbol) := by
  intro s keyed
  have facts := (heard_symbols s.mirror).defined keyed.metadata.symbols
    (v := symbol) fun _ => Symbol.bare_of_sameValue
  refine leads_update_bind rfl (recordIf_bind_leads ?_)
  generalize s.metadata.symbols.define symbol.key symbol = defined at facts ⊢
  obtain ⟨known, outcome⟩ := defined
  obtain ⟨filed, own, heard⟩ := facts
  have noted := noted_keyed (withSymbols_keyed keyed filed) (!symbol.auto && !outcome.isIgnored)
    (show (UndoAction.symbol symbol.key outcome.before? (some symbol)).Keyed from own)
  cases outcome with
  | added => exact emit_follows noted heard
  | updated before => exact emit_follows noted heard
  | unchanged before => exact leads_pure ⟨noted, heard⟩
  | ignored => exact leads_pure ⟨noted, heard⟩

theorem undefineSymbol_mirrored (key : SymbolKey) (auto : Bool) :
    Mirrored (undefineSymbol key auto) := by
  intro s keyed
  have facts := (heard_symbols s.mirror).undefined keyed.metadata.symbols key auto
  refine leads_update_bind rfl ?_
  generalize s.metadata.symbols.undefine key auto = undefined at facts ⊢
  obtain ⟨known, removed⟩ := undefined
  obtain ⟨filed, own, heard⟩ := facts
  cases removed with
  | none => exact leads_pure ⟨withSymbols_keyed keyed filed, heard⟩
  | some symbol =>
    exact told_follows (withSymbols_keyed keyed filed)
      (show (UndoAction.symbol key (some symbol) none).Keyed from own) heard true

theorem restoreSymbol_mirrored (key : SymbolKey) {state : Option Symbol}
    (own : ∀ symbol, state = some symbol → symbol.key = key) :
    Mirrored (restoreSymbol key state) :=
  fun s keyed => leads_read_bind (leads_modify_bind rfl (emit_follows
    (withSymbols_keyed keyed (keyed.metadata.symbols.alter own))
    ((heard_symbols s.mirror).restored keyed.metadata.symbols own)))

theorem defineImport_mirrored (slot : Symbol) (function : Word) :
    Mirrored (defineImport slot function) :=
  mirrored_bind (defineSymbol_mirrored _) fun _ => defineSymbol_mirrored _

end Symbols

section Tags

theorem heard_tags (m : Mirror) : Heard (fun t => { m with tags := t })
    TagReference.key TagReference.bare .tagAdded .tagRemoved .tagUpdated :=
  ⟨fun _ _ => rfl, fun _ _ => rfl, fun _ _ => rfl⟩

theorem withTags_keyed (keyed : s.Keyed) {t : Table TagKey TagReference}
    (filed : t.FiledBy (·.key)) :
    Keyed { s with metadata := { s.metadata with tags := t } } :=
  withMetadata_keyed keyed { keyed.metadata with tags := filed }

theorem addTag_mirrored (a : Word) (tag : Tag) (auto : Bool) :
    Mirrored (addTag a tag auto) := by
  intro s keyed
  refine leads_read_bind ?_
  split
  · exact leads_pure ⟨keyed, rfl⟩
  · have facts := (heard_tags s.mirror).defined keyed.metadata.tags
      (v := ⟨tag, a, auto⟩) fun _ => TagReference.bare_of_sameValue
    refine leads_update_bind rfl (recordIf_bind_leads ?_)
    have key : (⟨tag, a, auto⟩ : TagReference).key = ⟨a, tag.id⟩ := rfl
    rw [key] at facts
    generalize s.metadata.tags.define ⟨a, tag.id⟩ ⟨tag, a, auto⟩ = defined at facts ⊢
    obtain ⟨known, outcome⟩ := defined
    obtain ⟨filed, own, heard⟩ := facts
    have noted := noted_keyed (withTags_keyed keyed filed) (!auto && !outcome.isIgnored)
      (show (UndoAction.tag ⟨a, tag.id⟩ outcome.before? (some ⟨tag, a, auto⟩)).Keyed from own)
    cases outcome with
    | added => exact follows_bind (emit_follows noted heard) fun _ => mirrored_pure _
    | updated before => exact follows_bind (emit_follows noted heard) fun _ => mirrored_pure _
    | unchanged before => exact leads_pure ⟨noted, heard⟩
    | ignored => exact leads_pure ⟨noted, heard⟩

theorem createTag_mirrored (a : Word) (type : Uuid) (data : String) (auto : Bool) :
    Mirrored (createTag a type data auto) := by
  refine mirrored_bind freshId_mirrored fun id =>
    mirrored_bind (addTag_mirrored a _ auto) fun answer => ?_
  cases answer <;> exact mirrored_pure _

theorem removeTag_mirrored (a : Word) (id : Uuid) (auto : Bool) :
    Mirrored (removeTag a id auto) := by
  intro s keyed
  have facts := (heard_tags s.mirror).undefined keyed.metadata.tags ⟨a, id⟩ auto
  refine leads_update_bind rfl ?_
  generalize s.metadata.tags.undefine ⟨a, id⟩ auto = undefined at facts ⊢
  obtain ⟨known, removed⟩ := undefined
  obtain ⟨filed, own, heard⟩ := facts
  cases removed with
  | none => exact leads_pure ⟨withTags_keyed keyed filed, heard⟩
  | some reference =>
    exact told_follows (withTags_keyed keyed filed)
      (show (UndoAction.tag ⟨a, id⟩ (some reference) none).Keyed from own) heard true

theorem removeTags_mirrored (a : Word) (auto : Bool) (ids : List Uuid) :
    Mirrored (removeTags a auto ids) := by
  induction ids with
  | nil => exact mirrored_pure 0
  | cons id rest ih =>
    exact mirrored_bind (removeTag_mirrored a id auto) fun _ => mirrored_bind ih fun _ =>
      mirrored_pure _

theorem restoreTag_mirrored (key : TagKey) {state : Option TagReference}
    (own : ∀ r, state = some r → r.key = key) : Mirrored (restoreTag key state) :=
  fun s keyed => leads_read_bind (leads_modify_bind rfl (emit_follows
    (withTags_keyed keyed (keyed.metadata.tags.alter own))
    ((heard_tags s.mirror).restored keyed.metadata.tags own)))

end Tags

end Space

end BinaryAtlas
