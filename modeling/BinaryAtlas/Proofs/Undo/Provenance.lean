import BinaryAtlas.Proofs.Space.Records
import BinaryAtlas.Proofs.Space.SegmentTable
import BinaryAtlas.Proofs.Mirror.Completeness
import BinaryAtlas.Proofs.References.Indexing
import BinaryAtlas.Proofs.Undo.Replaying
import BinaryAtlas.Snapshot

/-!
Taking back what a user put in place of something automatic. Variables, symbols and types come back
as the records they were. Of a value or a reference the log only notes what it was or that it was
there, and replaying the note is an edit of the user: so a value that was automatic comes back as
the user's own, and a reference that was automatic does not come back.
-/

set_option autoImplicit false

namespace BinaryAtlas

namespace UndoLog

variable {log : UndoLog} {action : UndoAction}

theorem record_outside (recording : log.replaying = false) (outside : log.inGroup = false) :
    log.record action = { log with future := [], past := [action] :: log.past } := by
  simp [record, recording, outside]

end UndoLog

namespace Table

variable {K V : Type} [Ord K] [Std.TransOrd K] [Std.LawfulEqOrd K]

theorem alter_insert (t : Table K V) (k : K) (v : V) (state : Option V) :
    ((t.insert k v).alter k fun _ => state) = t.alter k fun _ => state := by
  classical
  apply ext_get?
  intro query
  rw [get?_alter, get?_alter, get?_insert]
  split <;> rfl

theorem erase_insert (t : Table K V) (k : K) (v : V) : (t.insert k v).erase k = t.erase k :=
  alter_insert t k v none

end Table

namespace Metadata

variable {m : Metadata} {key : String} {reference : ReferenceKey}

/-- The value of a key, if it has one, as the user's own. -/
def claimValue (m : Metadata) (key : String) : Metadata :=
  { m with values := m.values.alter key (·.map fun entry => (entry.1, false)) }

theorem get?_claimValue (m : Metadata) (key query : String) :
    (m.claimValue key).values.get? query =
      if query = key then (m.values.get? key).map fun entry => (entry.1, false)
      else m.values.get? query :=
  Table.get?_alter _ _ _ _

theorem claimValue_eq_self_iff :
    (m.claimValue key).values = m.values ↔ ∀ value, m.values.get? key ≠ some (value, true) := by
  constructor
  · intro same value automatic
    have held := m.get?_claimValue key key
    rw [same, automatic] at held
    simp at held
  · intro none_automatic
    apply Table.ext_get?
    intro query
    rw [get?_claimValue]
    split
    · rename_i here
      subst here
      cases held : m.values.get? query with
      | none => rfl
      | some entry =>
        obtain ⟨value, auto⟩ := entry
        cases auto with
        | true => exact absurd held (none_automatic value)
        | false => rfl
    · rfl

/-- A key is saved with the value that it holds for the user. -/
theorem get?_userValues (m : Metadata) (key : String) :
    m.userRecords.values.get? key = (m.values.get? key).filter (!·.2) :=
  Table.get?_filter _ _ _

/-- Claiming a key changes what is saved for it exactly if its value was automatic. -/
theorem claimValue_saved_iff :
    (m.claimValue key).userRecords.values.get? key = m.userRecords.values.get? key ↔
      ∀ value, m.values.get? key ≠ some (value, true) := by
  rw [get?_userValues, get?_userValues, get?_claimValue, if_pos rfl]
  cases m.values.get? key with
  | none => simp
  | some entry =>
    obtain ⟨value, auto⟩ := entry
    cases auto <;> simp [Option.filter]

theorem remove_addReference (m : Metadata) (key : ReferenceKey) (auto : Bool) :
    (m.addReference key auto).removeReference key = m.removeReference key := by
  simp only [removeReference, addReference, Table.erase_insert]

theorem add_removeReference (m : Metadata) (key : ReferenceKey) (auto : Bool) :
    (m.removeReference key).addReference key auto = m.addReference key auto := by
  simp only [removeReference, addReference, Table.insert_erase]

theorem addReference_eq_self {auto : Bool} (mirrors : m.Mirrors reference)
    (held : m.outgoing.get? reference = some auto) : m.addReference reference auto = m := by
  have back : m.incoming.get? reference.flip = some () := by rw [mirrors, held]; rfl
  have outgoing : m.outgoing.insert reference auto = m.outgoing := Table.alter_same held
  have incoming : m.incoming.insert reference.flip () = m.incoming := Table.alter_same back
  simp only [addReference, outgoing, incoming]

theorem removeReference_eq_self_iff (mirrors : m.Mirrors reference) :
    m.removeReference reference = m ↔ m.outgoing.get? reference = none := by
  constructor
  · intro same
    rw [← same]
    exact Table.get?_erase_self _ _
  · intro absent
    have nowhere : m.incoming.get? reference.flip = none := by rw [mirrors, absent]; rfl
    have outgoing : m.outgoing.erase reference = m.outgoing := Table.alter_same absent
    have incoming : m.incoming.erase reference.flip = m.incoming := Table.alter_same nowhere
    simp only [removeReference, outgoing, incoming]

end Metadata

namespace Space

variable {s : Space} {key : String} {value : Json} {source target : Word} {savedAt : Timestamp}

section Replaying

/-- Where a single action was noted last, to take it back shows what replaying its inverse does. -/
theorem undo_latest_shows {X : Type} (view : Space → X) (kept : ∀ s, view s.settled = view s)
    (unlogged : ∀ s f, view (withLog s f) = view s) {after : Space} {log : UndoLog}
    {action : UndoAction} (outside : log.inGroup = false)
    (latest : s.undoLog = { log with future := [], past := [action] :: log.past })
    (replays : (redoAction (inverse action)).Settles
      { s with undoLog := { log with future := [], replaying := true } } () after) :
    ((undo) s).collect.2.1 = true ∧ view ((undo) s).collect.2.2 = view after := by
  have closed : s.undoLog.inGroup = false := by
    rw [latest]
    exact outside
  have past : s.undoLog.past = [action] :: log.past := by rw [latest]
  have start :
      ({ s with undoLog := { s.undoLog with past := log.past, replaying := true } } : Space) =
        { s with undoLog := { log with future := [], replaying := true } } := by rw [latest]
  have once : (Op.forEach redoAction ([action].reverse.map inverse)).Settles
      { s with undoLog := { s.undoLog with past := log.past, replaying := true } } () after := by
    rw [start]
    exact replays.discard
  have same : view (replayed ([action].reverse.map inverse) { s.undoLog with past := log.past }
      s) = view after := once.shows kept
  rw [collect_undo closed past]
  constructor
  · rfl
  · rw [unlogged, same]

theorem undo_latest {after : Space} {log : UndoLog} {action : UndoAction}
    (outside : log.inGroup = false)
    (latest : s.undoLog = { log with future := [], past := [action] :: log.past })
    (replays : (redoAction (inverse action)).Settles
      { s with undoLog := { log with future := [], replaying := true } } () after) :
    ((undo) s).collect.2.1 = true ∧ ((undo) s).collect.2.2.metadata = after.metadata :=
  undo_latest_shows Space.metadata (fun _ => rfl) (fun _ _ => rfl) outside latest replays

theorem storeValue_settles (s : Space) (key : String) (value : Json) :
    (storeValue key value false).Settles s ()
      (noted (!(s.metadata.values.get? key).any fun old => old.1.agrees value && old.2 == false)
        (.value key ((s.metadata.values.get? key).map (·.1)) (some value))
        { s with metadata := { s.metadata with
          values := s.metadata.values.insert key (value, false) } }) := by
  unfold storeValue
  simp only [Op.read_bind_settles, editMetadata, Op.modify_bind_settles]
  cases (s.metadata.values.get? key).any fun old => old.1.agrees value && old.2 == false with
  | true => exact Op.pure_settles _ _
  | false => exact recordIf_bind_settles.2 (emit_settles _ _)

theorem removeValue_settles (s : Space) (key : String) :
    ∃ answer, (removeValue key).Settles s answer
      (noted ((s.metadata.values.get? key).any (!·.2))
        (.value key ((s.metadata.values.get? key).map (·.1)) none)
        { s with metadata := { s.metadata with values := s.metadata.values.erase key } }) := by
  cases held : s.metadata.values.get? key with
  | none =>
    have gone : s.metadata.values.erase key = s.metadata.values := Table.alter_same held
    refine ⟨false, ?_⟩
    simp [removeValue, held, gone, noted]
  | some entry =>
    obtain ⟨value, auto⟩ := entry
    refine ⟨true, ?_⟩
    cases auto <;> simp [removeValue, held, editMetadata, noted]

/-- What made an entry of its own was noted, and not while another one was replayed. -/
theorem noted_alone {condition : Bool} {action : UndoAction}
    (outside : s.undoLog.inGroup = false)
    (longer : s.undoLog.past.length < (noted condition action s).undoLog.past.length) :
    (noted condition action s).undoLog =
      { s.undoLog with future := [], past := [action] :: s.undoLog.past } := by
  cases condition with
  | false => exact absurd longer (Nat.lt_irrefl _)
  | true =>
    have recording : s.undoLog.replaying = false := by
      by_contra replaying
      have ignored : (noted true action s).undoLog = s.undoLog :=
        record_of_replaying (by simpa using replaying) action
      rw [ignored] at longer
      exact Nat.lt_irrefl _ longer
    exact UndoLog.record_outside recording outside

/-- A value is put back as the user's, whatever it was. -/
theorem restoreValue_settles (replaying : s.undoLog.replaying = true) (key : String)
    (state : Option Json) :
    (restoreValue key state).Settles s () { s with metadata := { s.metadata with
      values := s.metadata.values.alter key fun _ => state.map (·, false) } } := by
  cases state with
  | some value =>
    have stored := storeValue_settles s key value
    simp only [noted, record_of_replaying replaying, ite_self] at stored
    exact stored
  | none =>
    obtain ⟨answer, removed⟩ := removeValue_settles s key
    simp only [noted, record_of_replaying replaying, ite_self] at removed
    exact removed.discard

theorem addReference_settles (s : Space) (source target : Word) :
    (addReference source target).Settles s
      (s.metadata.outgoing.get? ⟨source, target, .data⟩ != some false)
      (if s.metadata.outgoing.get? ⟨source, target, .data⟩ = some false then s
        else noted true (.reference source target false true)
          { s with metadata := s.metadata.addReference ⟨source, target, .data⟩ false }) := by
  unfold addReference
  simp only [Op.read_bind_settles]
  split
  · rename_i own
    simp [own]
  · rename_i other
    simp only [editMetadata, Op.modify_bind_settles, record_bind_settles]
    rw [bne_iff_ne.2 other]
    exact Op.pure_settles true _

theorem removeReference_settles (s : Space) (source target : Word) :
    (removeReference source target).Settles s
      (s.metadata.outgoing.get? ⟨source, target, .data⟩ == some false)
      (if s.metadata.outgoing.get? ⟨source, target, .data⟩ = some false then
        noted true (.reference source target true false)
          { s with metadata := s.metadata.removeReference ⟨source, target, .data⟩ }
        else s) := by
  unfold removeReference
  by_cases own : s.metadata.outgoing.get? ⟨source, target, .data⟩ = some false
  · simp [own, editMetadata]
  · rw [if_neg own, beq_eq_false_iff_ne.2 own]
    simp [own]

end Replaying

section TakingBack

theorem stored_value_taken_back (outside : s.undoLog.inGroup = false) (savedAt : Timestamp) :
    let stored := ((storeValue key value false) s).collect.2.2
    s.undoLog.past.length < stored.undoLog.past.length →
    let back := ((undo) stored).collect.2
    back.1 = true ∧ back.2.metadata = s.metadata.claimValue key ∧
      (back.2.metadata.values = s.metadata.values ↔
        ∀ old, s.metadata.values.get? key ≠ some (old, true)) ∧
      ((back.2.snapshot savedAt).metadata.values.get? key =
          (s.snapshot savedAt).metadata.values.get? key ↔
        ∀ old, s.metadata.values.get? key ≠ some (old, true)) := by
  intro stored longer back
  have settles := storeValue_settles s key value
  have noted_log : stored.undoLog = _ := settles.undoLog
  have metadata : stored.metadata = { s.metadata with
      values := s.metadata.values.insert key (value, false) } := settles.shows fun _ => rfl
  have log : stored.undoLog = { s.undoLog with
      future := []
      past := [.value key ((s.metadata.values.get? key).map (·.1)) (some value)] ::
        s.undoLog.past } := by
    rw [noted_log] at longer
    exact noted_log.trans (noted_alone outside longer)
  -- The replay finds the new value in the table, and overwrites it with the former one.
  obtain ⟨answer, restored⟩ := undo_latest outside log (restoreValue_settles rfl key _)
  have claimed : back.2.metadata = s.metadata.claimValue key := by
    rw [restored, metadata]
    have values := Table.alter_insert s.metadata.values key (value, false)
      (((s.metadata.values.get? key).map (·.1)).map (·, false))
    simp only [values]
    rw [Option.map_map]
    rfl
  refine ⟨answer, claimed, ?_, ?_⟩
  · rw [claimed]
    exact Metadata.claimValue_eq_self_iff
  · show back.2.metadata.userRecords.values.get? key = s.metadata.userRecords.values.get? key ↔ _
    rw [claimed]
    exact Metadata.claimValue_saved_iff

/-- The value of a key has been stored, by a user or otherwise. -/
def valuedSpace (auto : Bool) : Space := emptySpace.afterwards [.storeValue "k" (.bool true) auto]

theorem valuedSpace_reachable (auto : Bool) : Reachable (valuedSpace auto) :=
  afterwards_reachable emptySpace_reachable (by cases auto <;> decide)

theorem user_value_taken_back :
    let stored := ((storeValue "k" .null false) (valuedSpace false)).collect.2.2
    stored.metadata.values.get? "k" = some (.null, false) ∧
      ((undo) stored).collect.2.2.metadata.values = (valuedSpace false).metadata.values := by
  have taken_back := @stored_value_taken_back (valuedSpace false) "k" .null rfl ⟨0, 0⟩
    (by decide +kernel)
  have held : (valuedSpace false).metadata.values.get? "k" = some (.bool true, false) := by
    decide +kernel
  exact ⟨by decide +kernel, taken_back.2.2.1.2 fun old => by simp [held]⟩

/-- An automatic value that a user replaced comes back as the user's, and is saved from then on. -/
theorem automatic_value_claimed :
    Reachable (valuedSpace true) ∧ (valuedSpace true).undoLog.inGroup = false ∧
      let stored := ((storeValue "k" .null false) (valuedSpace true)).collect.2.2
      let back := ((undo) stored).collect.2
      (valuedSpace true).undoLog.past.length < stored.undoLog.past.length ∧ back.1 = true ∧
        (valuedSpace true).metadata.values.get? "k" = some (.bool true, true) ∧
        back.2.metadata.values.get? "k" = some (.bool true, false) ∧
        ((valuedSpace true).snapshot ⟨0, 0⟩).metadata.values.get? "k" = none ∧
        (back.2.snapshot ⟨0, 0⟩).metadata.values.get? "k" = some (.bool true, false) :=
  ⟨valuedSpace_reachable true, by decide +kernel, by decide +kernel, by decide +kernel,
    by decide +kernel, by decide +kernel, by decide +kernel, by decide +kernel⟩

theorem added_reference_taken_back (outside : s.undoLog.inGroup = false)
    (recording : s.undoLog.replaying = false)
    (foreign : s.metadata.outgoing.get? ⟨source, target, .data⟩ ≠ some false) :
    let back := ((undo) ((addReference source target) s).collect.2.2).collect.2
    back.1 = true ∧ back.2.metadata = s.metadata.removeReference ⟨source, target, .data⟩ := by
  intro back
  have settles := addReference_settles s source target
  rw [if_neg foreign] at settles
  have log := settles.undoLog.trans (UndoLog.record_outside recording outside)
  have metadata : ((addReference source target) s).collect.2.2.metadata =
      s.metadata.addReference ⟨source, target, .data⟩ false := settles.shows fun _ => rfl
  have own : ((addReference source target) s).collect.2.2.metadata.outgoing.get?
      ⟨source, target, .data⟩ = some false := by
    rw [metadata]
    exact Table.get?_insert_self _ _ _
  -- The reference is the user's by now, so the replay takes it out altogether.
  have replays := removeReference_settles { ((addReference source target) s).collect.2.2 with
    undoLog := { s.undoLog with future := [], replaying := true } } source target
  rw [if_pos own] at replays
  obtain ⟨answer, restored⟩ := undo_latest outside log replays.discard
  refine ⟨answer, restored.trans ?_⟩
  show ((addReference source target) s).collect.2.2.metadata.removeReference _ = _
  rw [metadata, Metadata.remove_addReference]

theorem removed_reference_taken_back (outside : s.undoLog.inGroup = false)
    (recording : s.undoLog.replaying = false)
    (own : s.metadata.outgoing.get? ⟨source, target, .data⟩ = some false) :
    let back := ((undo) ((removeReference source target) s).collect.2.2).collect.2
    back.1 = true ∧ back.2.metadata = s.metadata.addReference ⟨source, target, .data⟩ false := by
  intro back
  have settles := removeReference_settles s source target
  rw [if_pos own] at settles
  have log := settles.undoLog.trans (UndoLog.record_outside recording outside)
  have metadata : ((removeReference source target) s).collect.2.2.metadata =
      s.metadata.removeReference ⟨source, target, .data⟩ := settles.shows fun _ => rfl
  have absent : ((removeReference source target) s).collect.2.2.metadata.outgoing.get?
      ⟨source, target, .data⟩ = none := by
    rw [metadata]
    exact Table.get?_erase_self _ _
  have replays := addReference_settles { ((removeReference source target) s).collect.2.2 with
    undoLog := { s.undoLog with future := [], replaying := true } } source target
  rw [if_neg (by simp [absent])] at replays
  obtain ⟨answer, restored⟩ := undo_latest outside log replays.discard
  refine ⟨answer, restored.trans ?_⟩
  show ((removeReference source target) s).collect.2.2.metadata.addReference _ false = _
  rw [metadata, Metadata.add_removeReference]

theorem reference_edits_taken_back (outside : s.undoLog.inGroup = false)
    (recording : s.undoLog.replaying = false) (source target : Word) :
    let key : ReferenceKey := ⟨source, target, .data⟩
    let added := ((addReference source target) s).collect.2
    let removed := ((removeReference source target) s).collect.2
    (added.1 = true →
      let back := ((undo) added.2).collect.2
      back.1 = true ∧ back.2.metadata = s.metadata.removeReference key ∧
        (s.metadata.Mirrors key →
          (back.2.metadata = s.metadata ↔ s.metadata.outgoing.get? key ≠ some true))) ∧
    (removed.1 = true →
      let back := ((undo) removed.2).collect.2
      back.1 = true ∧ back.2.metadata = s.metadata.addReference key false ∧
        (s.metadata.Mirrors key → back.2.metadata = s.metadata)) := by
  intro key added removed
  constructor
  · intro new back
    have foreign : s.metadata.outgoing.get? key ≠ some false :=
      bne_iff_ne.1 ((addReference_settles s source target).1.symm.trans new)
    obtain ⟨answer, gone⟩ := added_reference_taken_back outside recording foreign
    refine ⟨answer, gone, fun mirrors => ?_⟩
    rw [gone, Metadata.removeReference_eq_self_iff mirrors]
    rcases held : s.metadata.outgoing.get? key with _ | _ | _
    · simp
    · exact absurd held foreign
    · simp
  · intro own back
    have held : s.metadata.outgoing.get? key = some false :=
      beq_iff_eq.1 ((removeReference_settles s source target).1.symm.trans own)
    obtain ⟨answer, again⟩ := removed_reference_taken_back outside recording held
    exact ⟨answer, again, fun mirrors => again.trans (Metadata.addReference_eq_self mirrors held)⟩

/-- A user adds a reference and takes it out again. -/
def linkedSpace : Space := ((addReference 1 2) emptySpace).collect.2.2

theorem linked_edits_taken_back :
    (((undo) linkedSpace).collect.2.2.metadata = emptySpace.metadata) ∧
      ((undo) ((removeReference 1 2) linkedSpace).collect.2.2).collect.2.2.metadata =
        linkedSpace.metadata := by
  have added := (reference_edits_taken_back (s := emptySpace) rfl rfl 1 2).1 (by decide +kernel)
  have removed := (reference_edits_taken_back (s := linkedSpace) rfl rfl 1 2).2 (by decide +kernel)
  exact ⟨(added.2.2 (by decide +kernel)).2 (by decide +kernel), removed.2.2 (by decide +kernel)⟩

/-- An instruction at 0 loads from 3, and analysis has seen that. -/
def loadingSpace : Space :=
  emptySpace.afterwards [.addSegment ⟨0, ⟨0, 4⟩, 0, 4, .ofBits 7, false, []⟩, .write 0 [5, 3, 0, 1],
    .setArchitecture (some Toy.little), .addFunction 0, .reanalyze, .runRequested 1]

theorem loadingSpace_reachable : Reachable loadingSpace :=
  afterwards_reachable emptySpace_reachable (by decide +kernel)

/-- To add a reference that analysis had found, and to take that back, leaves none. -/
theorem automatic_reference_lost :
    Reachable loadingSpace ∧ loadingSpace.undoLog.inGroup = false ∧
      loadingSpace.metadata.outgoing.get? ⟨0, 3, .data⟩ = some true ∧
      loadingSpace.metadata.incoming.get? ⟨3, 0, .data⟩ = some () ∧
      let added := ((addReference 0 3) loadingSpace).collect.2
      let back := ((undo) added.2).collect.2
      added.1 = true ∧ back.1 = true ∧
        back.2.metadata.outgoing.get? ⟨0, 3, .data⟩ = none ∧
        back.2.metadata.incoming.get? ⟨3, 0, .data⟩ = none :=
  ⟨loadingSpace_reachable, by decide +kernel, by decide +kernel, by decide +kernel,
    by decide +kernel, by decide +kernel, by decide +kernel, by decide +kernel⟩

end TakingBack

end Space

end BinaryAtlas
