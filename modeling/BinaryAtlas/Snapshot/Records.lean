import BinaryAtlas.Json.Parser
import BinaryAtlas.Json.Printer
import BinaryAtlas.Metadata
import BinaryAtlas.PatchLog
import BinaryAtlas.Segment
import BinaryAtlas.Snapshot.Codec
import BinaryAtlas.SpaceConfig

/-!
The bytes of the records in a snapshot: their fields one after the other.
-/

set_option autoImplicit false

namespace BinaryAtlas

namespace Codec

mutual

def typeBytes : DataType → List UInt8
  | .void => choice.write 0
  | .bool => choice.write 1
  | .integer width signed => choice.write 2 ++ word.write width ++ bool.write signed
  | .float width => choice.write 3 ++ word.write width
  | .pointer target width => choice.write 4 ++ typeBytes target ++ word.write width
  | .array element count => choice.write 5 ++ typeBytes element ++ word.write count
  | .record name members width =>
    choice.write 6 ++ (option text).write name ++ numberBytes members.length ++
      memberBytes members ++ word.write width
  | .enumeration name members width =>
    choice.write 7 ++ (option text).write name ++ (list (pair text int)).write members ++
      word.write width
  | .function result parameters variadic =>
    choice.write 8 ++ typeBytes result ++ numberBytes parameters.length ++
      parameterBytes parameters ++ bool.write variadic
  | .named name width => choice.write 9 ++ text.write name ++ word.write width
termination_by structural t => t

def memberBytes : List StructMember → List UInt8
  | [] => []
  | .mk name offset type :: rest =>
    text.write name ++ word.write offset ++ typeBytes type ++ memberBytes rest
termination_by structural l => l

def parameterBytes : List Parameter → List UInt8
  | [] => []
  | .mk name type :: rest => (option text).write name ++ typeBytes type ++ parameterBytes rest
termination_by structural l => l

end

def readMember (type : ByteReader DataType) : ByteReader StructMember := do
  let name ← text.read
  let offset ← word.read
  pure (.mk name offset (← type))

def readParameter (type : ByteReader DataType) : ByteReader Parameter := do
  let name ← (option text).read
  pure (.mk name (← type))

def readType : Nat → ByteReader DataType
  | 0 => failure
  | fuel + 1 => do
    match ← choice.read with
    | 0 => pure .void
    | 1 => pure .bool
    | 2 => do
      let width ← word.read
      pure (.integer width (← bool.read))
    | 3 => do pure (.float (← word.read))
    | 4 => do
      let target ← readType fuel
      pure (.pointer target (← word.read))
    | 5 => do
      let element ← readType fuel
      pure (.array element (← word.read))
    | 6 => do
      let name ← (option text).read
      let count ← nat.read
      let members ← ByteReader.times (readMember (readType fuel)) count
      pure (.record name members (← word.read))
    | 7 => do
      let name ← (option text).read
      let members ← (list (pair text int)).read
      pure (.enumeration name members (← word.read))
    | 8 => do
      let result ← readType fuel
      let count ← nat.read
      let parameters ← ByteReader.times (readParameter (readType fuel)) count
      pure (.function result parameters (← bool.read))
    | 9 => do
      let name ← text.read
      pure (.named name (← word.read))
    | _ => failure

-- A type takes a byte at least, so there are not more of them than bytes.
def type : Codec DataType := ⟨typeBytes, fun input => readType input.length input⟩

def range : Codec AddressRange :=
  via (fun r => (r.start, r.stop)) (fun (start, stop) => ⟨start, stop⟩) (pair word word)

def segment : Codec Segment :=
  via (fun s => (s.id, s.range, s.dataOffset, s.dataLength, s.flags.bits, s.auto, s.relocations))
    (fun (id, range, offset, length, flags, auto, relocations) =>
      ⟨id, range, offset, length, .ofAllBits flags, auto, relocations⟩)
    (pair nat (pair range (pair word (pair word (pair choice (pair bool (list range)))))))

def section_ : Codec Section :=
  via
    (fun s => (s.name, s.range, s.semantics, s.typeName, s.linkedSection, s.infoSection, s.infoData,
      s.align, s.entrySize, s.auto))
    (fun (name, range, semantics, typeName, linked, info, infoData, align, entrySize, auto) =>
      ⟨name, range, semantics, typeName, linked, info, infoData, align, entrySize, auto⟩)
    (pair text (pair range (pair named (pair text (pair (option text) (pair (option text)
      (pair word (pair word (pair word bool)))))))))

def variable_ : Codec DataVariable :=
  via (fun v => (v.address, v.type, v.auto)) (fun (address, type, auto) => ⟨address, type, auto⟩)
    (pair word (pair type bool))

def symbolKey : Codec SymbolKey :=
  via (fun k => (k.address, k.scope)) (fun (address, scope) => ⟨address, scope⟩) (pair word text)

def symbol : Codec Symbol :=
  via
    (fun s => (s.kind, s.binding, s.scope, s.shortName, s.fullName, s.rawName, s.address, s.ordinal,
      s.auto))
    (fun (kind, binding, scope, short, full, raw, address, ordinal, auto) =>
      ⟨kind, binding, scope, short, full, raw, address, ordinal, auto⟩)
    (pair named (pair named (pair text (pair text (pair text (pair text (pair word (pair word
      bool))))))))

def typeRecord : Codec TypeRecord :=
  via (fun r => (r.id, r.type, r.auto)) (fun (id, type, auto) => ⟨id, type, auto⟩)
    (pair uuid (pair type bool))

def tagType : Codec TagType :=
  via (fun t => (t.id, t.name, t.icon, t.visible, t.kind))
    (fun (id, name, icon, visible, kind) => ⟨id, name, icon, visible, kind⟩)
    (pair uuid (pair text (pair text (pair bool named))))

def tag : Codec Tag :=
  via (fun t => (t.id, t.type, t.data)) (fun (id, type, data) => ⟨id, type, data⟩)
    (pair uuid (pair uuid text))

def tagReference : Codec TagReference :=
  via (fun r => (r.tag, r.address, r.auto)) (fun (tag, address, auto) => ⟨tag, address, auto⟩)
    (pair tag (pair word bool))

def tagKey : Codec TagKey :=
  via (fun k => (k.address, k.tag)) (fun (address, tag) => ⟨address, tag⟩) (pair word uuid)

def referenceKey : Codec ReferenceKey :=
  via (fun k => (k.near, k.far, k.kind)) (fun (near, far, kind) => ⟨near, far, kind⟩)
    (pair word (pair word named))

def string : Codec StringReference :=
  via (fun s => (s.kind, s.start, s.length)) (fun (kind, start, length) => ⟨kind, start, length⟩)
    (pair named (pair word word))

def parseValues? (texts : Table String (String × Bool)) : Option (Table String (Json × Bool)) := do
  let entries ← texts.entries.mapM fun (key, json, auto) => do
    pure (key, (← Json.parse? json).canonical, auto)
  pure (.ofList entries)

def values : Codec (Table String (Json × Bool)) :=
  partly (·.mapValues fun _ v => (v.1.compress, v.2)) parseValues? (table text (pair text bool))

def metadata : Codec Metadata :=
  via
    (fun m => (m.dataVariables, m.symbols, m.types, m.tagTypes, m.tags, m.outgoing, m.incoming.keys,
      m.strings, m.comments, m.values))
    (fun (dataVariables, symbols, types, tagTypes, tags, outgoing, incoming, strings, comments,
        values) =>
      ⟨dataVariables, symbols, types, tagTypes, tags, outgoing, .ofList (incoming.map (·, ())),
        strings, comments, values⟩)
    (pair (table word variable_) (pair (table symbolKey symbol) (pair (table text typeRecord)
      (pair (table uuid tagType) (pair (table tagKey tagReference) (pair (table referenceKey bool)
        (pair (list referenceKey) (pair (table word string) (pair (table word text)
          values)))))))))

def analysisConfig : Codec AnalysisConfig :=
  via
    (fun c => (c.autoSchedule, c.maxFunctionSize, c.maxBlocksPerFunction, c.workerThreads,
      c.minStringLength, c.maxStringLength))
    (fun (auto, size, blocks, threads, least, most) => ⟨auto, size, blocks, threads, least, most⟩)
    (pair bool (pair word (pair word (pair word (pair word word)))))

def searchConfig : Codec SearchConfig :=
  via (fun c => (c.chunkSize, c.progressGranularity, c.timeoutSeconds))
    (fun (chunk, granularity, timeout) => ⟨chunk, granularity, timeout⟩)
    (pair word (pair word word))

def linearConfig : Codec LinearConfig :=
  via (fun c => (c.bytesPerRow, c.showFunctionHeaders, c.maxLinesPerStep))
    (fun (row, headers, lines) => ⟨row, headers, lines⟩) (pair word (pair bool word))

def spaceConfig : Codec SpaceConfig :=
  via
    (fun c => (c.analysis, c.search, c.linear, c.entropy.defaultBlockSize, c.logging.level,
      c.logging.json))
    (fun (analysis, search, linear, block, level, json) =>
      ⟨analysis, search, linear, ⟨block⟩, ⟨level, json⟩⟩)
    (pair analysisConfig (pair searchConfig (pair linearConfig (pair word (pair text bool)))))

def patchRun : Codec PatchRun :=
  via (fun r => (r.start, r.stop, r.status)) (fun (start, stop, status) => ⟨start, stop, status⟩)
    (pair word (pair word named))

end Codec

end BinaryAtlas
