import BinaryAtlas.Analysis.Pass
import BinaryAtlas.Blake3
import BinaryAtlas.Decoder.Registry
import BinaryAtlas.FileStore
import BinaryAtlas.Snapshot.Records
import BinaryAtlas.Timestamp.Parser
import BinaryAtlas.ViewType

/-!
Snapshots of a space: what a user made of it, its layout and its bytes. A snapshot can be kept in a
file with a hash against damage, and a space made from it again.
-/

set_option autoImplicit false

namespace BinaryAtlas

structure Snapshot where
  savedAt : Timestamp
  viewType : String
  architecture : Option String
  config : SpaceConfig
  segments : List Segment
  sections : List Section
  metadata : Metadata
  userFunctions : List Word
  entryPoints : List Word
  contents : List UInt8
  modifications : List PatchRun

namespace Codec

-- A point in time as text; what others wrote need not be in the strict form.
def timestamp : Codec Timestamp := partly Timestamp.text (Timestamp.parse? .relaxed) text

def snapshot : Codec Snapshot :=
  via
    (fun s => (s.savedAt, s.viewType, s.architecture, s.config, s.segments, s.sections, s.metadata,
      s.userFunctions, s.entryPoints, s.contents, s.modifications))
    (fun (savedAt, viewType, architecture, config, segments, sections, metadata, userFunctions,
        entryPoints, contents, modifications) =>
      ⟨savedAt, viewType, architecture, config, segments, sections, metadata, userFunctions,
        entryPoints, contents, modifications⟩)
    (pair timestamp (pair text (pair (option text) (pair spaceConfig (pair (list segment)
      (pair (list section_) (pair metadata (pair (list word) (pair (list word)
        (pair (list byte) (list patchRun)))))))))))

end Codec

namespace Snapshot

def magic : List UInt8 := "VSPACEDB".toUTF8.toList

def version : Nat := 1

def payload (snapshot : Snapshot) : List UInt8 := Codec.snapshot.write snapshot

def header : List UInt8 := magic ++ Codec.littleBytes 4 version

def encode (snapshot : Snapshot) : List UInt8 :=
  header ++ Blake3.hash snapshot.payload ++ snapshot.payload

def decode (bytes : List UInt8) : Except AtlasError Snapshot :=
  if bytes.length < 44 || bytes.take 8 != magic then
    .error (.serialization "not a vspace database")
  else
    let found := (((bytes.drop 8).take 4).foldr (fun b n => n * 256 + b.toNat) 0 : Nat)
    if found != version then .error (.serialization s!"unsupported database version {found}")
    else
      let payload := bytes.drop 44
      if Blake3.hash payload != (bytes.drop 12).take 32 then
        .error (.serialization "database hash mismatch")
      else
        match Codec.snapshot.read payload with
        | some (snapshot, _) => .ok snapshot
        | none => .error (.serialization "the database is damaged")

def restoreSegments (segments : List Segment) : Except AtlasError SegmentMap :=
  segments.foldlM (·.restore ·) .empty

def restoreSections (map : SegmentMap) (sections : List Section) : SegmentMap :=
  sections.foldl (fun map section_ => (map.addSection section_).1) map

def restoreFunctions (snapshot : Snapshot) : FunctionTable :=
  { (FunctionTable.empty.addAll snapshot.userFunctions false).addAll snapshot.entryPoints true with
    entryPoints := snapshot.entryPoints }

/-- The space that holds the bytes, and the view of it that the snapshot shows. Where nothing is
known of that kind of view, it goes through its segments. -/
def restoreView (snapshot : Snapshot) (registry : ViewTypeRegistry) : Except AtlasError Space := do
  let data ← { storage := some ⟨.memory, snapshot.contents, .ofRuns snapshot.modifications⟩
               backend := some .raw
               architecture := snapshot.architecture.bind ArchitectureRegistry.standard.get?
               config := some snapshot.config : SpacePlan }.build
  if snapshot.viewType = data.viewType then pure data
  else if (registry.get? snapshot.viewType).isSome then registry.create snapshot.viewType data
  else data.derive (.mapped snapshot.viewType)

/-- Makes a space again. If it has functions and is set up for it, a run of analysis is
requested. -/
def restore (snapshot : Snapshot) (registry : ViewTypeRegistry) : Except AtlasError Space := do
  let view ← snapshot.restoreView registry
  let map ← restoreSegments snapshot.segments
  let functions := snapshot.restoreFunctions
  let wanted := !functions.functions.isEmpty && view.config.analysis.autoSchedule
  pure { view with
    map := restoreSections map snapshot.sections
    metadata := snapshot.metadata
    functions := functions
    scheduler := if wanted then view.scheduler.schedule else view.scheduler }

def openFile (files : FileStore) (name : String) (registry : ViewTypeRegistry) :
    Except AtlasError Space := do
  (← decode (← files.read name)).restore registry

end Snapshot

namespace Space

def snapshot (s : Space) (savedAt : Timestamp) : Snapshot :=
  { savedAt := savedAt
    viewType := s.viewType
    architecture := s.architecture.map (·.name)
    config := s.config
    segments := s.map.segments
    sections := s.map.allSections
    metadata := s.metadata.userRecords
    userFunctions := (s.functions.all.filter (!·.auto)).map (·.start)
    entryPoints := s.functions.entryPoints
    contents := s.storage.wholeContents
    modifications := s.storage.log.runs }

end Space

end BinaryAtlas
