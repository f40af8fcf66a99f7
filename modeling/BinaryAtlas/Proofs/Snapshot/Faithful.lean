import BinaryAtlas.Proofs.Analysis.Lasting
import BinaryAtlas.Proofs.SegmentMap.Reading
import BinaryAtlas.Proofs.Snapshot.Restoring

/-!
A space that is made from the snapshot of another one has the same snapshot, and the same bytes at
the same addresses.
-/

set_option autoImplicit false

namespace BinaryAtlas

namespace ArchitectureRegistry

/-- Instruction sets are registered under their own names. -/
def Named (r : ArchitectureRegistry) : Prop := ∀ name a, r.get? name = some a → a.name = name

theorem register_named {r : ArchitectureRegistry} (named : r.Named) (a : Architecture) :
    (r.register a).Named := by
  intro name b held
  rcases Table.get?_insert_eq_some_iff.1 held with ⟨rfl, rfl⟩ | ⟨-, held⟩
  · rfl
  · exact named name b held

theorem foldl_register_named {r : ArchitectureRegistry} (named : r.Named)
    (architectures : List Architecture) : (architectures.foldl register r).Named := by
  induction architectures generalizing r with
  | nil => exact named
  | cons a rest ih => exact ih (register_named named a)

theorem standard_named : standard.Named :=
  foldl_register_named (fun name a held => by simp [empty, get?] at held) _

/-- The name that is saved finds the instruction set again, if the name is known. -/
theorem named_again (saved : Option String) :
    (saved.bind standard.get?).map (·.name) =
      saved.filter fun name => (standard.get? name).isSome := by
  cases saved with
  | none => rfl
  | some name =>
    cases found : standard.get? name with
    | none => simp [found, Option.filter]
    | some a => simp [found, Option.filter, standard_named name a found]

end ArchitectureRegistry

namespace Metadata

theorem userRecords_userRecords (m : Metadata) : m.userRecords.userRecords = m.userRecords := by
  have twice {K V : Type} [Ord K] (t : Table K V) (keep : K → V → Bool) :
      (t.filter keep).filter keep = t.filter keep := by
    apply Table.ext_entries
    simp [Table.filter]
  simp only [userRecords, twice]

end Metadata

namespace Storage

variable {s : Storage}

theorem wholeContents_memory (contents : List UInt8) (log : PatchLog) :
    wholeContents ⟨.memory, contents, log⟩ = contents := by
  simp [wholeContents, read, slice, size]

theorem Truthful.wholeContents (truthful : s.Truthful) : s.wholeContents = s.contents := by
  rw [Storage.wholeContents, truthful]
  simp [slice, size]

end Storage

namespace Space

variable {x y s t : Space} {savedAt : Timestamp} {registry : ViewTypeRegistry}

theorem snapshot_of_lasting (same : s.lasting = t.lasting) (savedAt : Timestamp) :
    s.snapshot savedAt = t.snapshot savedAt := by
  simp only [lasting, Prod.mk.injEq] at same
  obtain ⟨backend, storage, map, architecture, config, metadata, starts, entryPoints, -⟩ := same
  simp only [snapshot, viewType, backend, storage, map, architecture, config, metadata,
    entryPoints, ← FunctionTable.values_userStarts, starts]

theorem restored_snapshot (filed : x.Filed)
    (restored : (x.snapshot savedAt).restore registry = .ok y) (again : Timestamp) :
    y.snapshot again = { x.snapshot savedAt with
      savedAt := again
      architecture := (x.snapshot savedAt).architecture.filter fun name =>
        (ArchitectureRegistry.standard.get? name).isSome } := by
  obtain ⟨view, map, opens, segments, scheduler, rfl⟩ := Snapshot.restore_eq_ok restored
  have named : (x.snapshot savedAt).viewType ≠ "" := by
    show x.backend.name ≠ ""
    cases x.backend with
    | raw => decide
    | mapped label =>
      show (if label = "" then "Mapped" else label) ≠ ""
      split
      · decide
      · assumption
  have map_eq := SegmentMap.restored_map filed.map segments
  have starts : (x.snapshot savedAt).restoreFunctions.userStarts = x.functions.userStarts :=
    Snapshot.restored_userStarts filed.functions (FunctionTable.values_userStarts _).symm
  have architecture : view.architecture.map (·.name) = _ :=
    (congrArg (Option.map (·.name)) opens.architecture).trans (ArchitectureRegistry.named_again _)
  have viewType : view.backend.name = _ := opens.viewType named
  rw [snapshot, Snapshot.mk.injEq]
  refine ⟨rfl, viewType, architecture, opens.config, ?_, ?_, ?_, ?_, rfl, ?_, ?_⟩
  · show (Snapshot.restoreSections map x.map.allSections).segments = x.map.segments
    rw [map_eq]
    rfl
  · show (Snapshot.restoreSections map x.map.allSections).allSections = x.map.allSections
    rw [map_eq]
    rfl
  · exact Metadata.userRecords_userRecords x.metadata
  · show ((x.snapshot savedAt).restoreFunctions.all.filter _).map _ =
      (x.functions.all.filter _).map _
    rw [← FunctionTable.values_userStarts, ← FunctionTable.values_userStarts, starts]
  · show view.storage.wholeContents = x.storage.wholeContents
    rw [opens.storage]
    exact Storage.wholeContents_memory _ _
  · show view.storage.log.runs = x.storage.log.runs
    rw [opens.storage]
    exact congrArg PatchLog.runs (PatchLog.ofRuns_runs filed.log)

theorem restored_reads (filed : x.Filed) (truthful : x.storage.Truthful)
    (standard : x.backend ≠ .mapped "Raw")
    (restored : (x.snapshot savedAt).restore registry = .ok y) (a : Word) :
    (∀ n, y.read a n = x.read a n) ∧ y.status? a = x.status? a := by
  obtain ⟨view, map, opens, segments, scheduler, rfl⟩ := Snapshot.restore_eq_ok restored
  have map_eq := SegmentMap.restored_map filed.map segments
  have storage : view.storage = ⟨.memory, x.storage.contents, x.storage.log⟩ := by
    rw [opens.storage, Storage.mk.injEq]
    exact ⟨rfl, truthful.wholeContents, PatchLog.ofRuns_runs filed.log⟩
  have bytes (offset : Word) (length : Nat) :
      view.storage.read offset length = x.storage.read offset length := by
    rw [storage, truthful]
    rfl
  have log : view.storage.log = x.storage.log := by rw [storage]
  have size : view.storage.length = x.storage.length := by rw [storage]; rfl
  show (∀ n, view.backend.read (Snapshot.restoreSections map x.map.allSections) view.storage a n =
      x.backend.read x.map x.storage a n) ∧
    view.backend.status? (Snapshot.restoreSections map x.map.allSections) view.storage a =
      x.backend.status? x.map x.storage a
  rw [map_eq]
  cases backend : x.backend with
  | raw =>
    have raw : view.backend = .raw := opens.raw (by rw [snapshot, viewType, backend]; rfl)
    rw [raw]
    exact ⟨bytes a, by simp only [Backend.status?, log, size]⟩
  | mapped label =>
    have other : (x.snapshot savedAt).viewType ≠ "Raw" := by
      show x.backend.name ≠ "Raw"
      rw [backend, Backend.name]
      split
      · decide
      · exact fun same => standard (by rw [backend, same])
    obtain ⟨label', mapped⟩ := opens.mapped other
    rw [mapped]
    constructor
    · intro n
      show SegmentMap.read { x.map with lastId := map.lastId } view.storage a n =
        x.map.read x.storage a n
      refine SegmentMap.read_same ?_ ?_ bytes a n <;> rfl
    · simp only [Backend.status?, SegmentMap.storedAt?, log, size]
      rfl

/-- Two segments at one address, a section that hides another one, and a function of a user at an
entry point. -/
def savedSnapshot : Snapshot where
  savedAt := ⟨0, 0⟩
  viewType := "Mapped"
  architecture := some "x86_64"
  config := {}
  segments := [⟨2, ⟨0x10, 0x12⟩, 3, 1, .ofBits 7, false, []⟩,
    ⟨1, ⟨0x10, 0x18⟩, 0, 4, .ofBits 7, true, [⟨0x10, 0x14⟩]⟩]
  sections := [.ofLayout "code" 0x10 4 .readOnlyCode false, .ofLayout "code" 0x10 8 .default true]
  metadata := { Metadata.empty with comments := .insert .empty 0x10 "start" }
  userFunctions := [0x10]
  entryPoints := [0x10, 0x11]
  contents := [1, 2, 3, 4]
  modifications := [⟨1, 2, .changed⟩]

def openedSpace : Space where
  backend := .mapped ""
  storage := ⟨.memory, [1, 2, 3, 4], .ofRuns savedSnapshot.modifications⟩
  map := ⟨.insert .empty 0x10 ⟨1, ⟨0x10, 0x18⟩, 0, 4, .ofBits 7, true, [⟨0x10, 0x14⟩]⟩,
    .insert .empty 0x10 ⟨2, ⟨0x10, 0x12⟩, 3, 1, .ofBits 7, false, []⟩,
    .insert .empty "code" (.ofLayout "code" 0x10 8 .default true),
    .insert .empty "code" (.ofLayout "code" 0x10 4 .readOnlyCode false), 2⟩
  metadata := savedSnapshot.metadata
  functions := savedSnapshot.restoreFunctions
  undoLog := .empty
  scheduler := Scheduler.initial.schedule
  architecture := ArchitectureRegistry.standard.get? "x86_64"
  config := {}
  parentView := some "Raw"
  bulk := ⟨0, []⟩
  idsMade := 0

theorem openedSpace_reachable : Reachable openedSpace :=
  .restored (show savedSnapshot.restore .standard = .ok openedSpace from rfl)
    fun _ => ⟨by decide, by decide⟩

end Space

end BinaryAtlas
