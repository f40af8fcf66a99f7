import BinaryAtlas.Proofs.Analysis.Lasting
import BinaryAtlas.Proofs.Snapshot.Faithful
import BinaryAtlas.Proofs.Space.Layout

/-!
What nobody asked for leaves alone what somebody did. Records, segments, sections and functions that
are defined or taken out automatically never stand in for a user's, and cannot be undone.
-/

set_option autoImplicit false

namespace BinaryAtlas

namespace Table

variable {K V : Type} [Ord K] [Std.TransOrd K] [Std.LawfulEqOrd K] [DecidableEq K]

theorem filter_insert {t : Table K V} {keep : K → V → Bool} {k : K} {v : V}
    (left_out : keep k v = false) (none_kept : (t.get? k).filter (keep k) = none) :
    (t.insert k v).filter keep = t.filter keep := by
  apply ext_get?
  intro key
  rw [get?_filter, get?_filter, get?_insert]
  by_cases here : key = k
  · subst here
    simp [left_out, none_kept]
  · rw [if_neg here]

theorem filter_erase {t : Table K V} {keep : K → V → Bool} {k : K}
    (none_kept : (t.get? k).filter (keep k) = none) :
    (t.erase k).filter keep = t.filter keep := by
  apply ext_get?
  intro key
  rw [get?_filter, get?_filter, get?_erase]
  by_cases here : key = k
  · subst here
    rw [if_pos rfl, none_kept]
    rfl
  · rw [if_neg here]

variable [Provenance V]

theorem filter_define_auto (t : Table K V) (k : K) {v : V} (auto : Provenance.isAuto v = true) :
    (t.define k v).1.filter (fun _ v => !Provenance.isAuto v) =
      t.filter fun _ v => !Provenance.isAuto v := by
  unfold define
  cases held : t.get? k with
  | none => exact filter_insert (by simp [auto]) (by simp [held])
  | some before =>
    cases shadowed : Provenance.isAuto before with
    | false => simp [auto, shadowed]
    | true =>
      have none_kept : (t.get? k).filter (fun v => !Provenance.isAuto v) = none := by
        simp [held, shadowed]
      simp only [auto, shadowed, Bool.not_true, Bool.and_false, Bool.false_eq_true, if_false]
      split <;> exact filter_insert (by simp [auto]) none_kept

theorem filter_undefine_auto (t : Table K V) (k : K) :
    (t.undefine k true).1.filter (fun _ v => !Provenance.isAuto v) =
      t.filter fun _ v => !Provenance.isAuto v := by
  unfold undefine
  cases held : t.get? k with
  | none => rfl
  | some before =>
    cases shadowed : Provenance.isAuto before with
    | false => simp [shadowed]
    | true =>
      simp only [shadowed, Bool.not_true, Bool.and_false, Bool.false_eq_true, if_false]
      exact filter_erase (by simp [held, shadowed])

end Table

namespace FunctionTable

theorem userStarts_erase {t : FunctionTable} {a : Word} {f : Function}
    (held : t.functions.get? a = some f) (auto : f.auto = true) (queue : Table Word Unit) :
    userStarts { t with functions := t.functions.erase a, queue := queue } = t.userStarts := by
  have kept : (t.functions.erase a).filter (fun _ f => !f.auto) =
      t.functions.filter fun _ f => !f.auto := Table.filter_erase (by simp [held, auto])
  simp only [userStarts, kept]

end FunctionTable

namespace Space

open Op

section Records

theorem emit_lasting (events : List ChangeEvent) : Keeps lasting (emit events) :=
  keeps_emit (fun _ _ => rfl) (fun _ _ => rfl) events

theorem metadata_lasting {s : Space} {m : Metadata}
    (records : m.userRecords = s.metadata.userRecords) :
    lasting { s with metadata := m } = lasting s := by
  simp only [lasting, records]

theorem defineVariable_lasting {v : DataVariable} (auto : v.auto = true) :
    Keeps lasting (defineVariable v) := by
  unfold defineVariable
  rw [auto]
  refine keeps_bind (fun s => ?_) fun outcome => keeps_bind (keeps_pure ()) fun _ => ?_
  · exact metadata_lasting (congrArg
      (fun known => { s.metadata.userRecords with dataVariables := known })
      (s.metadata.dataVariables.filter_define_auto v.address auto))
  · cases outcome with
    | added => exact emit_lasting _
    | updated before => exact emit_lasting _
    | unchanged before => exact keeps_pure ()
    | ignored => exact keeps_pure ()

theorem undefineVariable_lasting (a : Word) : Keeps lasting (undefineVariable a true) := by
  refine keeps_bind (fun s => ?_) fun removed => ?_
  · exact metadata_lasting (congrArg
      (fun known => { s.metadata.userRecords with dataVariables := known })
      (s.metadata.dataVariables.filter_undefine_auto a))
  · cases removed with
    | none => exact keeps_pure false
    | some v =>
      exact keeps_bind (keeps_pure ()) fun _ => keeps_bind (emit_lasting _) fun _ =>
        keeps_pure true

theorem defineSymbol_lasting {symbol : Symbol} (auto : symbol.auto = true) :
    Keeps lasting (defineSymbol symbol) := by
  unfold defineSymbol
  rw [auto]
  refine keeps_bind (fun s => ?_) fun outcome => keeps_bind (keeps_pure ()) fun _ => ?_
  · exact metadata_lasting (congrArg
      (fun symbols => { s.metadata.userRecords with symbols := symbols })
      (s.metadata.symbols.filter_define_auto symbol.key auto))
  · cases outcome with
    | added => exact emit_lasting _
    | updated before => exact emit_lasting _
    | unchanged before => exact keeps_pure ()
    | ignored => exact keeps_pure ()

theorem undefineSymbol_lasting (key : SymbolKey) : Keeps lasting (undefineSymbol key true) := by
  refine keeps_bind (fun s => ?_) fun removed => ?_
  · exact metadata_lasting (congrArg
      (fun symbols => { s.metadata.userRecords with symbols := symbols })
      (s.metadata.symbols.filter_undefine_auto key))
  · cases removed with
    | none => exact keeps_pure false
    | some symbol =>
      exact keeps_bind (keeps_pure ()) fun _ => keeps_bind (emit_lasting _) fun _ =>
        keeps_pure true

theorem defineImport_lasting (slot : Symbol) (function : Word) :
    Keeps lasting (defineImport slot function) := by
  refine keeps_bind (defineSymbol_lasting rfl) fun _ => defineSymbol_lasting ?_
  show (Symbol.ofRawName .importedFunction function slot.rawName).auto = true
  unfold Symbol.ofRawName
  split <;> rfl

/-- How the definition of a type is told. -/
theorem definedType_lasting (name : String) (type : DataType) (id : Uuid)
    (outcome : Defined TypeRecord) : Keeps lasting (do
      match outcome with
      | .added => emit [.typeDefined name type]
      | .updated _ =>
        emit (.typeDefined name type ::
          (← Op.read fun s => TypeLibrary.mentionEvents s.metadata name))
      | .unchanged _ => emit []
      | .ignored => pure ()
      pure (.ok id) : Op (Except AtlasError Uuid)) := by
  cases outcome with
  | added => exact keeps_bind (emit_lasting _) fun _ => keeps_pure _
  | updated before =>
    exact keeps_bind (keeps_read _) fun _ => keeps_bind (emit_lasting _) fun _ => keeps_pure _
  | unchanged before => exact keeps_bind (emit_lasting _) fun _ => keeps_pure _
  | ignored => exact keeps_pure _

theorem defineType_lasting (name : String) (type : DataType) :
    Keeps lasting (defineType name type true) := by
  unfold defineType
  cases QualifiedName.parse name with
  | error e => exact keeps_pure _
  | ok qualified =>
    refine keeps_bind (keeps_read _) fun known => ?_
    have defined (id : Uuid) (s : Space) : lasting { s with metadata := { s.metadata with
        types := (s.metadata.types.define qualified.text ⟨id, type, true⟩).1 } } = lasting s :=
      metadata_lasting (congrArg
        (fun types => { s.metadata.userRecords with types := types })
        (s.metadata.types.filter_define_auto qualified.text rfl))
    cases known with
    | none =>
      refine keeps_bind (fun _ => rfl) fun id => keeps_bind (defined id) fun outcome =>
        keeps_bind (keeps_pure ()) fun _ => ?_
      exact definedType_lasting _ _ _ outcome
    | some record =>
      refine keeps_bind (keeps_pure _) fun id => keeps_bind (defined id) fun outcome =>
        keeps_bind (keeps_pure ()) fun _ => ?_
      exact definedType_lasting _ _ _ outcome

theorem undefineType_lasting (name : String) : Keeps lasting (undefineType name true) := by
  refine keeps_bind (fun s => ?_) fun removed => ?_
  · exact metadata_lasting (congrArg
      (fun types => { s.metadata.userRecords with types := types })
      (s.metadata.types.filter_undefine_auto name))
  · cases removed with
    | none => exact keeps_pure false
    | some record =>
      exact keeps_bind (keeps_read _) fun _ => keeps_bind (keeps_pure ()) fun _ =>
        keeps_bind (emit_lasting _) fun _ => keeps_pure true

end Records

section Tags

theorem addTag_lasting (a : Word) (tag : Tag) : Keeps lasting (addTag a tag true) := by
  refine keeps_bind (keeps_read _) fun known => ?_
  split
  · exact keeps_pure _
  · refine keeps_bind (fun s => ?_) fun outcome => keeps_bind (keeps_pure ()) fun _ => ?_
    · exact metadata_lasting (congrArg
        (fun tags => { s.metadata.userRecords with tags := tags })
        (s.metadata.tags.filter_define_auto ⟨a, tag.id⟩ rfl))
    · cases outcome with
      | added => exact keeps_bind (emit_lasting _) fun _ => keeps_pure _
      | updated before => exact keeps_bind (emit_lasting _) fun _ => keeps_pure _
      | unchanged before => exact keeps_pure _
      | ignored => exact keeps_pure _

theorem createTag_lasting (a : Word) (type : Uuid) (data : String) :
    Keeps lasting (createTag a type data true) := by
  refine keeps_bind (fun _ => rfl) fun id => keeps_bind (addTag_lasting a _) fun answer => ?_
  cases answer <;> exact keeps_pure _

theorem removeTag_lasting (a : Word) (id : Uuid) : Keeps lasting (removeTag a id true) := by
  refine keeps_bind (fun s => ?_) fun removed => ?_
  · exact metadata_lasting (congrArg
      (fun tags => { s.metadata.userRecords with tags := tags })
      (s.metadata.tags.filter_undefine_auto ⟨a, id⟩))
  · cases removed with
    | none => exact keeps_pure false
    | some reference =>
      exact keeps_bind (keeps_pure ()) fun _ => keeps_bind (emit_lasting _) fun _ =>
        keeps_pure true

theorem removeTags_lasting (a : Word) (ids : List Uuid) :
    Keeps lasting (removeTags a true ids) := by
  induction ids with
  | nil => exact keeps_pure 0
  | cons id rest ih =>
    exact keeps_bind (removeTag_lasting a id) fun _ => keeps_bind ih fun _ => keeps_pure _

end Tags

section Functions

theorem insertFunction_lasting (a : Word) : Keeps lasting (insertFunction a) := by
  refine keeps_bind (keeps_read _) fun valid => ?_
  split
  · exact keeps_pure false
  · refine keeps_bind (fun s => ?_) fun new => ?_
    · show lasting { s with functions := (s.functions.add a true).1 } = lasting s
      simp only [lasting, FunctionTable.userStarts_add, FunctionTable.entryPoints_add]
    · split
      · exact keeps_bind (editScheduler_lasting _) fun _ => keeps_pure new
      · exact keeps_pure new

theorem addFunction_lasting (a : Word) : Keeps lasting (addFunction a) := by
  refine keeps_bind (insertFunction_lasting a) fun new => ?_
  cases new with
  | false => exact keeps_pure false
  | true => exact keeps_bind (emit_lasting _) fun _ => keeps_pure true

theorem removeFunction_lasting (a : Word) : Keeps lasting (removeFunction a true) := by
  intro s
  unfold removeFunction
  rw [collect_read_bind]
  cases held : s.functions.functions.get? a with
  | none => rfl
  | some f =>
    simp only
    cases auto : f.auto with
    | false => rfl
    | true =>
      have erased : lasting { s with functions := { s.functions with
          functions := s.functions.functions.erase a, queue := s.functions.queue.erase a } } =
            lasting s := by
        simp only [lasting, FunctionTable.userStarts_erase held auto]
      refine Eq.trans ?_ erased
      exact keeps_bind (replaceReferences_lasting _ _) (fun _ => keeps_bind (keeps_pure ())
        fun _ => keeps_bind (emit_lasting _) fun _ => keeps_pure true) _

theorem reanalyzeFunction_lasting (a : Word) : Keeps lasting (reanalyzeFunction a) := by
  refine keeps_bind (keeps_read _) fun known => ?_
  split
  · exact keeps_pure false
  · exact keeps_bind (enqueueAll_lasting [a]) fun _ => keeps_bind (editScheduler_lasting _)
      fun _ => keeps_bind (emit_lasting _) fun _ => keeps_pure true

theorem requestAnalysis_lasting : Keeps lasting requestAnalysis := by
  refine keeps_bind (keeps_read _) fun held => ?_
  split
  · exact editScheduler_lasting _
  · exact keeps_pure ()

theorem reanalyze_lasting : Keeps lasting reanalyze :=
  keeps_bind (keeps_read _) fun starts => keeps_bind (enqueueAll_lasting starts) fun _ =>
    keeps_bind (keeps_forEach (fun _ => editScheduler_lasting _) starts) fun _ =>
      requestAnalysis_lasting

theorem abortAnalysis_lasting : Keeps lasting abortAnalysis :=
  keeps_bind (fun _ => rfl) complete_lasting

end Functions

end Space

/-- What a user did: the records, segments, sections and functions of a user, and what of all that
can be undone and done again. -/
structure UserWork where
  records : Metadata
  segments : SegmentLayer
  sections : Table String Section
  functions : Table Word Word
  undoLog : UndoLog

namespace Space

open Op

def userWork (s : Space) : UserWork :=
  ⟨s.metadata.userRecords, s.map.userSegments, s.map.userSections, s.functions.userStarts,
    s.undoLog⟩

variable {s t : Space}

theorem userWork_of_lasting (same : s.lasting = t.lasting) :
    s.userWork = t.userWork ∧ s.map = t.map := by
  simp only [lasting, Prod.mk.injEq] at same
  simp only [userWork, same, and_self]

section Layout

theorem settles_automatic {α : Type} {op : Op α} {answer : α} {after : Space}
    (settles : op.Settles s answer after) (work : after.userWork = s.userWork)
    (numbered : after.map.Numbered) :
    (op s).collect.2.2.userWork = s.userWork ∧ (op s).collect.2.2.map.Numbered := by
  have same : (op s).collect.2.2.userWork = after.userWork := settles.shows fun _ => rfl
  rw [same, settles.map]
  exact ⟨work, numbered⟩

theorem addSegment_automatic (numbered : s.map.Numbered) {segment : Segment}
    (auto : segment.auto = true) :
    ((addSegment segment) s).collect.2.2.userWork = s.userWork ∧
      ((addSegment segment) s).collect.2.2.map.Numbered := by
  cases added : s.map.add segment with
  | error e =>
    rw [addSegment_refused added]
    exact ⟨rfl, numbered⟩
  | ok outcome =>
    obtain ⟨map, id⟩ := outcome
    have put := added
    simp only [SegmentMap.add] at put
    split_ifs at put
    cases put
    -- The number is new, so what is shown is the segment itself, and not one of a user.
    refine settles_automatic (addSegment_settles added (SegmentMap.byId?_put_next numbered segment))
      ?_ (SegmentMap.put_numbered numbered (Nat.le_add_right _ 1) (Nat.le_refl _))
    simp [userWork, noted, SegmentMap.put, SegmentMap.withLayer, auto]

theorem removeSegment_automatic (numbered : s.map.Numbered) (start : Word) :
    ((removeSegment start true) s).collect.2.2.userWork = s.userWork ∧
      ((removeSegment start true) s).collect.2.2.map.Numbered := by
  have removed := SegmentMap.remove_numbered numbered start true
  refine settles_automatic (removeSegment_settles s start true) ?_ ?_ <;>
    cases (s.map.layer true).get? start <;> first | rfl | exact removed

theorem addSection_automatic (numbered : s.map.Numbered) (section_ : Section) :
    ((addSection section_ true) s).collect.2.2.userWork = s.userWork ∧
      ((addSection section_ true) s).collect.2.2.map.Numbered :=
  settles_automatic (addSection_settles s section_ true) rfl numbered

theorem removeSection_automatic (numbered : s.map.Numbered) (name : String) :
    ((removeSection name true) s).collect.2.2.userWork = s.userWork ∧
      ((removeSection name true) s).collect.2.2.map.Numbered := by
  refine settles_automatic (removeSection_settles s name true) ?_ ?_ <;>
    cases (s.map.removeSection name true).2 <;> first | rfl | exact numbered

end Layout

end Space

namespace SpaceEdit

/-- What no user asks for: what is defined, added or taken out automatically, and analysis. -/
def isAuto : SpaceEdit → Bool
  | addSegment segment => segment.auto
  | removeSegment _ auto => auto
  | addSection _ auto => auto
  | removeSection _ auto => auto
  | defineVariable v => v.auto
  | undefineVariable _ auto => auto
  | defineSymbol symbol => symbol.auto
  | undefineSymbol _ auto => auto
  | defineImport _ _ => true
  | defineType _ _ auto => auto
  | undefineType _ auto => auto
  | addTag _ _ auto => auto
  | createTag _ _ _ auto => auto
  | removeTag _ _ auto => auto
  | removeTagsOfType _ _ auto => auto
  | addFunction _ => true
  | removeFunction _ auto => auto
  | reanalyzeFunction _ => true
  | reanalyze => true
  | requestAnalysis => true
  | abortAnalysis => true
  | runRequested _ => true
  | schedule _ => true
  | _ => false

end SpaceEdit

namespace Space

open Op

variable {s : Space}

theorem automatic_step (numbered : s.map.Numbered) {edit : SpaceEdit}
    (auto : edit.isAuto = true) :
    (edit.run s).collect.2.2.userWork = s.userWork ∧ (edit.run s).collect.2.2.map.Numbered := by
  have plain {op : Op Unit} (kept : Keeps lasting op) :
      (op s).collect.2.2.userWork = s.userWork ∧ (op s).collect.2.2.map.Numbered := by
    obtain ⟨work, map⟩ := userWork_of_lasting (kept s)
    exact ⟨work, map ▸ numbered⟩
  cases edit with
  | addSegment segment =>
    rw [SpaceEdit.run, collect_discard]
    exact addSegment_automatic numbered auto
  | removeSegment start =>
    obtain rfl : _ = true := auto
    rw [SpaceEdit.run, collect_discard]
    exact removeSegment_automatic numbered start
  | addSection section_ =>
    obtain rfl : _ = true := auto
    exact addSection_automatic numbered section_
  | removeSection name =>
    obtain rfl : _ = true := auto
    rw [SpaceEdit.run, collect_discard]
    exact removeSection_automatic numbered name
  | defineVariable v => exact plain (defineVariable_lasting auto)
  | undefineVariable a =>
    obtain rfl : _ = true := auto
    exact plain (keeps_discard (undefineVariable_lasting a))
  | defineSymbol symbol => exact plain (defineSymbol_lasting auto)
  | undefineSymbol key =>
    obtain rfl : _ = true := auto
    exact plain (keeps_discard (undefineSymbol_lasting key))
  | defineImport slot function => exact plain (defineImport_lasting slot function)
  | defineType name type =>
    obtain rfl : _ = true := auto
    exact plain (keeps_discard (defineType_lasting name type))
  | undefineType name =>
    obtain rfl : _ = true := auto
    exact plain (keeps_discard (undefineType_lasting name))
  | addTag a tag =>
    obtain rfl : _ = true := auto
    exact plain (keeps_discard (addTag_lasting a tag))
  | createTag a type data =>
    obtain rfl : _ = true := auto
    exact plain (keeps_discard (createTag_lasting a type data))
  | removeTag a id =>
    obtain rfl : _ = true := auto
    exact plain (keeps_discard (removeTag_lasting a id))
  | removeTagsOfType a type =>
    obtain rfl : _ = true := auto
    exact plain (keeps_discard (keeps_bind (keeps_read _) fun _ => removeTags_lasting a _))
  | addFunction a => exact plain (keeps_discard (addFunction_lasting a))
  | removeFunction a =>
    obtain rfl : _ = true := auto
    exact plain (keeps_discard (removeFunction_lasting a))
  | reanalyzeFunction a => exact plain (keeps_discard (reanalyzeFunction_lasting a))
  | reanalyze => exact plain reanalyze_lasting
  | requestAnalysis => exact plain requestAnalysis_lasting
  | abortAnalysis => exact plain abortAnalysis_lasting
  | runRequested fuel => exact plain (runRequested_lasting fuel)
  | schedule f => exact plain (editScheduler_lasting f)
  | _ => exact nomatch auto

/-- Whatever is done automatically, and however often analysis runs, what a user did is there as it
was, and can be undone as before. -/
theorem automatic_edits_keep_user_work (reached : s.Reachable) {edits : List SpaceEdit}
    (auto : ∀ edit ∈ edits, edit.isAuto = true) :
    ((forEach SpaceEdit.run edits) s).collect.2.2.userWork = s.userWork := by
  obtain ⟨filed, -⟩ := reachable_filed reached
  have step : ∀ edit ∈ edits, ∀ t, t.userWork = s.userWork ∧ t.map.Numbered →
      (edit.run t).collect.2.2.userWork = s.userWork ∧ (edit.run t).collect.2.2.map.Numbered := by
    intro edit member t here
    obtain ⟨work, numbered⟩ := automatic_step here.2 (auto edit member)
    exact ⟨work.trans here.1, numbered⟩
  exact (forEach_collect_invariant step ⟨rfl, filed.map.numbered⟩).1

/-- A section, a segment and a function of a user stand where automatic edits go. -/
theorem shadowing_work_kept :
    let edits : List SpaceEdit := [.addSection (.ofLayout "code" 0x10 2 .default false) true,
      .removeSegment 0x10 true, .removeFunction 0x10 true,
      .defineVariable ⟨0x10, .integer 2 false, true⟩, .reanalyze, .runRequested 1]
    let after := ((forEach SpaceEdit.run edits) openedSpace).collect.2.2
    after.userWork = openedSpace.userWork ∧ after.map.autoSegments = .empty ∧
      after.map.section? "code" = openedSpace.map.section? "code" ∧
      after.functions.userStarts.get? 0x10 = some 0x10 :=
  ⟨automatic_edits_keep_user_work openedSpace_reachable (by decide), by decide +kernel,
    by decide +kernel, by decide +kernel⟩

end Space

end BinaryAtlas
