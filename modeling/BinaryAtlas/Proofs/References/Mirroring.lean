import BinaryAtlas.Proofs.Functions.Removing
import BinaryAtlas.Proofs.Listing.Walking
import BinaryAtlas.Proofs.Space.Steadying

/-!
References that begin at some addresses and those that lead to some are the same ones, in every
space that a program gets to. Only a snapshot that was written by hand knows some from one side
alone.
-/

set_option autoImplicit false

namespace BinaryAtlas

namespace Space

open Op

theorem indexed_steady : Steady fun s => s.metadata.Indexed where
  elsewhere here _ _ _ indexed := indexed here

variable {α : Type}

abbrev KeepsIndexed (op : Op α) : Prop := Lasts (fun s => s.metadata.Indexed) op

section Layout

theorem update_indexed {f : Space → Space × α} (same : ∀ s, (f s).1.metadata = s.metadata) :
    KeepsIndexed (update f) :=
  preserves_update fun s indexed _ => ⟨(same s).symm ▸ indexed, trivial⟩

theorem recordIf_indexed (condition : Bool) (action : UndoAction) :
    KeepsIndexed (recordIf condition action) :=
  preserves_ite (fun _ indexed _ => ⟨indexed, trivial⟩) (preserves_pure ())

theorem emit_indexed (events : List ChangeEvent) : KeepsIndexed (emit events) :=
  emit_lasts indexed_steady events

theorem noted_indexed (condition : Bool) (action : UndoAction) (events : List ChangeEvent)
    (answer : α) :
    KeepsIndexed (do recordIf condition action; emit events; pure answer : Op α) :=
  preserves_bind (recordIf_indexed _ _) fun _ =>
    preserves_bind (emit_indexed _) fun _ => preserves_pure answer

theorem addSegment_indexed (segment : Segment) : KeepsIndexed (addSegment segment) := by
  refine preserves_bind (preserves_read _) fun before => ?_
  cases before.add segment with
  | error e => exact preserves_pure _
  | ok outcome =>
    obtain ⟨map, id⟩ := outcome
    refine preserves_bind (fun _ indexed _ => ⟨indexed, trivial⟩) fun _ => ?_
    cases map.byId? id with
    | none => exact preserves_pure _
    | some stored => exact noted_indexed _ _ _ _

theorem removeSegment_indexed (start : Word) (auto : Bool) :
    KeepsIndexed (removeSegment start auto) := by
  refine preserves_bind (update_indexed fun _ => rfl) fun removed => ?_
  cases removed with
  | none => exact preserves_pure false
  | some segment => exact noted_indexed _ _ _ true

theorem restoreSegment_indexed (start : Word) (state : Option Segment) :
    KeepsIndexed (restoreSegment start state) := by
  refine preserves_bind (update_indexed fun s => ?_) fun events => emit_indexed events
  cases state with
  | none => rfl
  | some segment => simp only; split <;> rfl

theorem addSection_indexed (section_ : Section) (auto : Bool) :
    KeepsIndexed (addSection section_ auto) :=
  preserves_bind (update_indexed fun _ => rfl) fun _ =>
    preserves_bind (recordIf_indexed _ _) fun _ => emit_indexed _

theorem removeSection_indexed (name : String) (auto : Bool) :
    KeepsIndexed (removeSection name auto) := by
  refine preserves_bind (update_indexed fun _ => rfl) fun removed => ?_
  cases removed with
  | none => exact preserves_pure false
  | some section_ => exact noted_indexed _ _ _ true

theorem restoreSection_indexed (name : String) (state : Option Section) :
    KeepsIndexed (restoreSection name state) := by
  refine preserves_bind (update_indexed fun s => ?_) fun events => emit_indexed events
  cases state <;> rfl

theorem redoAction_indexed (action : UndoAction) : KeepsIndexed (redoAction action) := by
  cases plain : action.isLayout with
  | false => exact redoAction_lasts indexed_steady plain
  | true =>
    cases action with
    | segment start before after => exact restoreSegment_indexed start after
    | «section» name before after => exact restoreSection_indexed name after
    | _ => cases plain

/-- What is done to the log around a replay does not matter. -/
theorem replay_indexed (turn : UndoAction → UndoAction) (actions : List UndoAction)
    (before after : UndoLog → UndoLog) :
    KeepsIndexed (do
      editUndoLog before
      Op.forEach (fun action => redoAction (turn action)) actions
      editUndoLog after
      pure true : Op Bool) :=
  preserves_bind (fun _ indexed _ => ⟨indexed, trivial⟩) fun _ =>
    preserves_bind (preserves_forEach (fun action => redoAction_indexed (turn action)) actions)
      fun _ => preserves_bind (fun _ indexed _ => ⟨indexed, trivial⟩) fun _ => preserves_pure true

theorem undo_indexed : KeepsIndexed undo := by
  refine preserves_bind (preserves_read _) fun log => preserves_ite (preserves_pure false) ?_
  split
  · exact preserves_pure false
  · exact replay_indexed inverse _ _ _

theorem redo_indexed : KeepsIndexed redo := by
  refine preserves_bind (preserves_read _) fun log => preserves_ite (preserves_pure false) ?_
  split
  · exact preserves_pure false
  · exact replay_indexed id _ _ _

end Layout

theorem edit_indexed (edit : SpaceEdit) : KeepsIndexed edit.run := by
  cases spares : edit.sparesLayout with
  | true => exact edit_lasts indexed_steady spares
  | false =>
    cases edit with
    | addSegment segment => exact preserves_discard (addSegment_indexed segment)
    | removeSegment start auto => exact preserves_discard (removeSegment_indexed start auto)
    | addSection section_ auto => exact addSection_indexed section_ auto
    | removeSection name auto => exact preserves_discard (removeSection_indexed name auto)
    | defineRelocation range => exact preserves_discard (update_indexed fun _ => rfl)
    | undo => exact preserves_discard undo_indexed
    | redo => exact preserves_discard redo_indexed
    | _ => cases spares

variable {s x : Space}

/-- The spaces that a program can get to with snapshots whose references are indexed, such as those
that it takes itself. -/
inductive Referenced : Space → Prop where
  | built {plan : SpacePlan} {s : Space} (made : plan.build = .ok s) : Referenced s
  | created {registry : ViewTypeRegistry} {name : String} {data s : Space}
      (made : registry.create name data = .ok s) : Referenced s
  | restored {snapshot : Snapshot} {registry : ViewTypeRegistry} {s : Space}
      (indexed : snapshot.metadata.Indexed) (made : snapshot.restore registry = .ok s) :
      Referenced s
  | edited {s seen : Space} (referenced : Referenced s) (edit : SpaceEdit)
      (shows : (edit.run s).Shows seen) : Referenced seen

theorem snapshot_indexed (s : Space) (savedAt : Timestamp) :
    (s.snapshot savedAt).metadata.Indexed :=
  s.metadata.userRecords_indexed

theorem Referenced.indexed (referenced : s.Referenced) : s.metadata.Indexed := by
  induction referenced with
  | built made =>
    obtain ⟨storage, -, rfl⟩ := SpacePlan.build_eq_ok made
    exact Metadata.empty_indexed
  | created made =>
    obtain ⟨type, -, created⟩ := ViewTypeRegistry.create_eq_ok made
    obtain ⟨views, -, -⟩ := ViewType.create_eq_ok created
    rw [views.metadata]
    exact Metadata.empty_indexed
  | restored indexed made =>
    obtain ⟨view, map, -, -, scheduler, rfl⟩ := Snapshot.restore_eq_ok made
    exact indexed
  | edited referenced edit shows indexed =>
    exact (Run.shows_good (fun _ _ => trivial) edit_indexed shows
      (edit_indexed edit _ indexed trivial)).1

theorem afterwards_referenced (referenced : s.Referenced) {edits : List SpaceEdit}
    (fits : s.staysFitting edits = true) : (s.afterwards edits).Referenced := by
  induction edits generalizing s with
  | nil => exact referenced
  | cons edit rest ih =>
    obtain ⟨first, later⟩ := Bool.and_eq_true_iff.1 fits
    exact ih (.edited referenced edit (.last (ends_of_fitsQuietly first))) later

section Queries

/-- A reference that the space keeps, with its flag. -/
def Keeps (s : Space) (r : CrossReference) : Prop :=
  s.metadata.outgoing.get? ⟨r.source, r.target, r.kind⟩ = some r.auto

/-- Among as many addresses from one on, which are one at least. -/
def Among (a length x : Word) : Prop :=
  a.toNat ≤ x.toNat ∧ x.toNat < a.toNat + max length.toNat 1

theorem contains_iff_among {a length x : Word} :
    (AddressRange.ofLength a (max length 1)).contains x = true ↔ Among a length x ∧ x ≠ .top := by
  have highest := x.toNat_lt
  have top : x ≠ .top ↔ x.toNat ≠ 0xffffffffffffffff := by
    rw [Ne, ← UInt64.toNat_inj, Word.toNat_top]
  have one : (1 : Word).toNat = 1 := rfl
  rw [AddressRange.contains_iff, UInt64.le_iff_toNat_le, UInt64.lt_iff_toNat_lt, top]
  simp only [Among, AddressRange.ofLength, Word.toNat_addCapped, Word.toNat_max, one]
  omega

theorem mem_referencesFrom_iff {a length : Word} {kind : ReferenceKind} {r : CrossReference} :
    r ∈ s.referencesFrom a length kind ↔
      s.Keeps r ∧ r.kind = kind ∧ Among a length r.source ∧ r.source ≠ .top := by
  unfold referencesFrom Keeps
  simp only [List.mem_map, List.mem_filter, Bool.and_eq_true, beq_iff_eq, contains_iff_among,
    Table.get?_eq_some_iff]
  constructor
  · rintro ⟨⟨⟨source, target, kind⟩, auto⟩, ⟨held, near, rfl⟩, rfl⟩
    exact ⟨held, rfl, near⟩
  · rintro ⟨held, rfl, near⟩
    exact ⟨(⟨r.source, r.target, r.kind⟩, r.auto), ⟨held, near, rfl⟩, rfl⟩

theorem mem_referencesTo_iff (indexed : s.metadata.Indexed) {a length : Word}
    {kind : ReferenceKind} {r : CrossReference} :
    r ∈ s.referencesTo a length kind ↔
      s.Keeps r ∧ r.kind = kind ∧ Among a length r.target ∧ r.target ≠ .top := by
  unfold referencesTo Keeps
  simp only [List.mem_map, List.mem_filter, Bool.and_eq_true, beq_iff_eq, contains_iff_among,
    Table.mem_keys_iff]
  constructor
  · rintro ⟨⟨target, source, kind⟩, ⟨⟨_, known⟩, near, rfl⟩, rfl⟩
    have mirrors := indexed ⟨source, target, kind⟩
    unfold Metadata.Mirrors at mirrors
    -- What the index knows of is in the table, so no flag has to be made up.
    cases held : s.metadata.outgoing.get? ⟨source, target, kind⟩ with
    | none =>
      rw [held] at mirrors
      cases known.symm.trans mirrors
    | some auto =>
      refine ⟨?_, rfl, near⟩
      show _ = some ((s.metadata.outgoing.get? ⟨source, target, kind⟩).getD true)
      rw [held]
      rfl
  · rintro ⟨held, rfl, near⟩
    have mirrors := indexed ⟨r.source, r.target, r.kind⟩
    unfold Metadata.Mirrors at mirrors
    rw [held] at mirrors
    refine ⟨⟨r.target, r.source, r.kind⟩, ⟨⟨(), mirrors⟩, near, rfl⟩, ?_⟩
    show CrossReference.mk r.source r.target r.kind
      ((s.metadata.outgoing.get? ⟨r.source, r.target, r.kind⟩).getD true) = r
    rw [held]
    rfl

theorem referencesFrom_nodup (a length : Word) (kind : ReferenceKind) :
    (s.referencesFrom a length kind).Nodup := by
  have keys := s.metadata.outgoing.keys_nodup
  rw [Table.keys, List.Nodup, List.pairwise_map] at keys
  unfold referencesFrom
  rw [List.Nodup, List.pairwise_map]
  refine (keys.filter _).imp fun {e e'} apart same => apart ?_
  obtain ⟨⟨near, far, kind⟩, auto⟩ := e
  obtain ⟨⟨near', far', kind'⟩, auto'⟩ := e'
  cases same
  rfl

theorem referencesTo_nodup (a length : Word) (kind : ReferenceKind) :
    (s.referencesTo a length kind).Nodup := by
  unfold referencesTo
  rw [List.Nodup, List.pairwise_map]
  refine (s.metadata.incoming.keys_nodup.filter _).imp fun {k k'} apart same => apart ?_
  obtain ⟨near, far, kind⟩ := k
  obtain ⟨near', far', kind'⟩ := k'
  obtain ⟨rfl, rfl, rfl, -⟩ := CrossReference.mk.inj same
  rfl

/-- The whole of the addresses, but for the last one. -/
theorem among_all {x : Word} (low : x ≠ .top) : Among 0 .top x := by
  have top : x.toNat ≠ 0xffffffffffffffff := fun same => low (UInt64.toNat_inj.1 same)
  have highest := x.toNat_lt
  have zero : (0 : Word).toNat = 0 := rfl
  unfold Among
  rw [Word.toNat_top, zero]
  omega

end Queries

/-- Both tables know the same references, also when a snapshot has been taken and restored. What a
question finds is what is kept there, each reference once and with its flag, and it does not matter
from which side one asks. No question reaches the last address. -/
theorem references_mirrored (referenced : s.Referenced) :
    (∀ source target kind, (s.metadata.incoming.get? ⟨target, source, kind⟩).isSome =
      (s.metadata.outgoing.get? ⟨source, target, kind⟩).isSome) ∧
    (∀ savedAt registry x, (s.snapshot savedAt).restore registry = .ok x → x.Referenced) ∧
    (∀ a length kind,
      (s.referencesTo a length kind).Nodup ∧ (s.referencesFrom a length kind).Nodup ∧
      ∀ r, (r ∈ s.referencesTo a length kind ↔
          s.Keeps r ∧ r.kind = kind ∧ Among a length r.target ∧ r.target ≠ .top) ∧
        (r ∈ s.referencesFrom a length kind ↔
          s.Keeps r ∧ r.kind = kind ∧ Among a length r.source ∧ r.source ≠ .top)) ∧
    ∀ kind, ((s.referencesTo 0 .top kind).filter (·.source ≠ .top)).Perm
      ((s.referencesFrom 0 .top kind).filter (·.target ≠ .top)) := by
  have indexed := referenced.indexed
  refine ⟨fun source target kind => ?_, fun savedAt registry x made => ?_,
    fun a length kind => ⟨referencesTo_nodup a length kind, referencesFrom_nodup a length kind,
      fun r => ⟨mem_referencesTo_iff indexed, mem_referencesFrom_iff⟩⟩, fun kind => ?_⟩
  · have mirrors := indexed ⟨source, target, kind⟩
    unfold Metadata.Mirrors at mirrors
    rw [show (⟨target, source, kind⟩ : ReferenceKey) = (⟨source, target, kind⟩ : ReferenceKey).flip
      from rfl, mirrors, Option.isSome_map]
  · exact .restored (s.snapshot_indexed savedAt) made
  · refine (List.perm_ext_iff_of_nodup ((referencesTo_nodup _ _ _).filter _)
      ((referencesFrom_nodup _ _ _).filter _)).2 fun r => ?_
    simp only [List.mem_filter, decide_eq_true_eq, mem_referencesTo_iff indexed,
      mem_referencesFrom_iff]
    constructor
    · rintro ⟨⟨held, rfl, -, target⟩, source⟩
      exact ⟨⟨held, rfl, among_all source, source⟩, target⟩
    · rintro ⟨⟨held, rfl, -, source⟩, target⟩
      exact ⟨⟨held, rfl, among_all target, target⟩, source⟩

/-- Two functions that call a third one. -/
def calledSpace : Space := { emptySpace with storage := .inMemory [0xd, 8, 0, 1, 0xd, 8, 0, 1, 1] }

/-- One caller is removed after the analysis, and so is one of the user's references, which comes
back. -/
def crossedSpace : Space :=
  calledSpace.afterwards [.addSegment ⟨0, ⟨0, 9⟩, 0, 9, .ofBits 7, false, []⟩,
    .setArchitecture (some Toy.little), .addFunction 0, .addFunction 4, .reanalyze, .runRequested 1,
    .addReference 1 8, .addReference 5 8, .removeReference 1 8, .undo, .removeFunction 0 true]

theorem crossedSpace_referenced : crossedSpace.Referenced := by
  have made : ({ storage := some (.inMemory [0xd, 8, 0, 1, 0xd, 8, 0, 1, 1]) } : SpacePlan).build =
      .ok calledSpace := rfl
  exact afterwards_referenced (.built made) (by decide +kernel)

theorem crossed_space_mirrored :
    crossedSpace.referencesFrom 0 .top .code = [⟨4, 8, .code, true⟩] ∧
      crossedSpace.referencesTo 8 0 .data = [⟨1, 8, .data, false⟩, ⟨5, 8, .data, false⟩] ∧
      ((crossedSpace.referencesTo 0 .top .data).filter (·.source ≠ .top)).Perm
        ((crossedSpace.referencesFrom 0 .top .data).filter (·.target ≠ .top)) :=
  ⟨by decide +kernel, by decide +kernel,
    (references_mirrored crossedSpace_referenced).2.2.2 .data⟩

/-- A snapshot with a reference that its index does not know of. -/
def unindexedSnapshot : Snapshot :=
  { ListingCursor.writtenSnapshot "Raw" [] .empty with
    metadata := { Metadata.empty with outgoing := .insert .empty ⟨2, 4, .data⟩ false } }

def unindexedSpace : Space :=
  { ListingCursor.writtenSpace .raw .empty .empty none with metadata := unindexedSnapshot.metadata }

theorem unindexedSpace_reachable : unindexedSpace.Reachable :=
  .restored (show unindexedSnapshot.restore .standard = .ok unindexedSpace from rfl)
    fun _ => ⟨by decide, by decide⟩

/-- Restoring takes both tables over as they are. -/
theorem reference_known_from_source_only :
    unindexedSpace.Reachable ∧
      unindexedSpace.metadata.outgoing.get? ⟨2, 4, .data⟩ = some false ∧
      unindexedSpace.metadata.incoming.get? ⟨4, 2, .data⟩ = none ∧
      unindexedSpace.referencesFrom 2 1 .data = [⟨2, 4, .data, false⟩] ∧
      unindexedSpace.referencesTo 4 1 .data = [] :=
  ⟨unindexedSpace_reachable, by decide⟩

end Space

end BinaryAtlas
