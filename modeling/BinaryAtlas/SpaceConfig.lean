import BinaryAtlas.AtlasError
import BinaryAtlas.Json.Parser
import BinaryAtlas.Json.Printer
import BinaryAtlas.Text.Blank

/-!
Settings of an address space and how they are read from JSON. A missing section or field keeps its
default and an unknown one is passed over; a section may also be an array of its fields in order.
-/

set_option autoImplicit false

namespace BinaryAtlas

structure AnalysisConfig where
  autoSchedule : Bool := true
  maxFunctionSize : Word := 0x10000
  maxBlocksPerFunction : Word := 4096
  workerThreads : Word := 0
  minStringLength : Word := 4
  maxStringLength : Word := 1024
  deriving DecidableEq, Inhabited

structure SearchConfig where
  chunkSize : Word := 65536
  /-- A search tells how far it is once for so many bytes. -/
  progressGranularity : Word := 65536
  /-- Zero is no limit. -/
  timeoutSeconds : Word := 0
  deriving DecidableEq, Inhabited

structure LinearConfig where
  bytesPerRow : Word := 16
  showFunctionHeaders : Bool := true
  maxLinesPerStep : Word := 64
  deriving DecidableEq, Inhabited

structure EntropyConfig where
  defaultBlockSize : Word := 4096
  deriving DecidableEq, Inhabited

structure LoggingConfig where
  level : String := "info"
  json : Bool := false
  deriving DecidableEq, Inhabited

structure SpaceConfig where
  analysis : AnalysisConfig := {}
  search : SearchConfig := {}
  linear : LinearConfig := {}
  entropy : EntropyConfig := {}
  logging : LoggingConfig := {}
  deriving DecidableEq, Inhabited

namespace Json

/-- The values of named fields in an object or, in their order, in an array. There is none for a
field that is missing; a field given twice, or more items than fields, are refused. -/
def fields? (names : List String) : Json → Option (List (Option Json))
  | .object members =>
    let given := members.filter (fun m => names.contains m.1)
    if (given.map (·.1)).Nodup then some (names.map (fun n => given.lookup n)) else none
  | .array items =>
    if items.length ≤ names.length then
      some (items.map some ++ List.replicate (names.length - items.length) none)
    else none
  | _ => none

def word? : Json → Option Word
  | .number (.integer i) => if 0 ≤ i ∧ i < 0x10000000000000000 then some (.ofNat i.toNat) else none
  | _ => none

def orDefault {α : Type} (read : Json → Option α) (default : α) : Option Json → Option α
  | none => some default
  | some v => read v

def word (w : Word) : Json := .nat w.toNat

end Json

namespace AnalysisConfig

def fieldNames : List String :=
  ["auto_schedule", "max_function_size", "max_blocks_per_function", "worker_threads",
    "min_string_length", "max_string_length"]

def ofJson? (v : Json) : Option AnalysisConfig := do
  let [auto, size, blocks, threads, least, most] ← v.fields? fieldNames | none
  let d : AnalysisConfig := {}
  pure ⟨← Json.orDefault Json.bool? d.autoSchedule auto,
    ← Json.orDefault Json.word? d.maxFunctionSize size,
    ← Json.orDefault Json.word? d.maxBlocksPerFunction blocks,
    ← Json.orDefault Json.word? d.workerThreads threads,
    ← Json.orDefault Json.word? d.minStringLength least,
    ← Json.orDefault Json.word? d.maxStringLength most⟩

def toJson (c : AnalysisConfig) : Json :=
  .object [("auto_schedule", .bool c.autoSchedule),
    ("max_function_size", .word c.maxFunctionSize),
    ("max_blocks_per_function", .word c.maxBlocksPerFunction),
    ("worker_threads", .word c.workerThreads),
    ("min_string_length", .word c.minStringLength),
    ("max_string_length", .word c.maxStringLength)]

end AnalysisConfig

namespace SearchConfig

def fieldNames : List String := ["chunk_size", "progress_granularity", "timeout_seconds"]

def ofJson? (v : Json) : Option SearchConfig := do
  let [chunk, granularity, timeout] ← v.fields? fieldNames | none
  let d : SearchConfig := {}
  pure ⟨← Json.orDefault Json.word? d.chunkSize chunk,
    ← Json.orDefault Json.word? d.progressGranularity granularity,
    ← Json.orDefault Json.word? d.timeoutSeconds timeout⟩

def toJson (c : SearchConfig) : Json :=
  .object [("chunk_size", .word c.chunkSize),
    ("progress_granularity", .word c.progressGranularity),
    ("timeout_seconds", .word c.timeoutSeconds)]

end SearchConfig

namespace LinearConfig

def fieldNames : List String := ["bytes_per_row", "show_function_headers", "max_lines_per_step"]

def ofJson? (v : Json) : Option LinearConfig := do
  let [row, headers, lines] ← v.fields? fieldNames | none
  let d : LinearConfig := {}
  pure ⟨← Json.orDefault Json.word? d.bytesPerRow row,
    ← Json.orDefault Json.bool? d.showFunctionHeaders headers,
    ← Json.orDefault Json.word? d.maxLinesPerStep lines⟩

def toJson (c : LinearConfig) : Json :=
  .object [("bytes_per_row", .word c.bytesPerRow),
    ("show_function_headers", .bool c.showFunctionHeaders),
    ("max_lines_per_step", .word c.maxLinesPerStep)]

end LinearConfig

namespace EntropyConfig

def fieldNames : List String := ["default_block_size"]

def ofJson? (v : Json) : Option EntropyConfig := do
  let [block] ← v.fields? fieldNames | none
  let d : EntropyConfig := {}
  pure ⟨← Json.orDefault Json.word? d.defaultBlockSize block⟩

def toJson (c : EntropyConfig) : Json :=
  .object [("default_block_size", .word c.defaultBlockSize)]

end EntropyConfig

namespace LoggingConfig

def fieldNames : List String := ["level", "json"]

def ofJson? (v : Json) : Option LoggingConfig := do
  let [level, json] ← v.fields? fieldNames | none
  let d : LoggingConfig := {}
  pure ⟨← Json.orDefault Json.string? d.level level, ← Json.orDefault Json.bool? d.json json⟩

def toJson (c : LoggingConfig) : Json :=
  .object [("level", .string c.level), ("json", .bool c.json)]

end LoggingConfig

namespace SpaceConfig

def sections : List (String × Json.Interest) :=
  [("analysis", .ofNames AnalysisConfig.fieldNames), ("search", .ofNames SearchConfig.fieldNames),
    ("linear", .ofNames LinearConfig.fieldNames), ("entropy", .ofNames EntropyConfig.fieldNames),
    ("logging", .ofNames LoggingConfig.fieldNames)]

def ofJson? (v : Json) : Option SpaceConfig := do
  let [analysis, search, linear, entropy, logging] ← v.fields? (sections.map (·.1)) | none
  pure ⟨← Json.orDefault AnalysisConfig.ofJson? {} analysis,
    ← Json.orDefault SearchConfig.ofJson? {} search,
    ← Json.orDefault LinearConfig.ofJson? {} linear,
    ← Json.orDefault EntropyConfig.ofJson? {} entropy,
    ← Json.orDefault LoggingConfig.ofJson? {} logging⟩

def toJson (c : SpaceConfig) : Json :=
  .object [("analysis", c.analysis.toJson), ("search", c.search.toJson),
    ("linear", c.linear.toJson), ("entropy", c.entropy.toJson), ("logging", c.logging.toJson)]

def validate (c : SpaceConfig) : Except AtlasError Unit :=
  -- Refuses settings that contradict each other or with which work would never end.
  if c.linear.bytesPerRow = 0 then
    .error (.invalidArgument "linear.bytes_per_row must be non-zero")
  else if c.linear.maxLinesPerStep = 0 then
    .error (.invalidArgument "linear.max_lines_per_step must be non-zero")
  else if c.search.chunkSize = 0 then
    .error (.invalidArgument "search.chunk_size must be non-zero")
  else if c.entropy.defaultBlockSize = 0 then
    .error (.invalidArgument "entropy.default_block_size must be non-zero")
  else if trim c.logging.level.toList = [] then
    .error (.invalidArgument "logging.level must not be empty")
  else if c.analysis.maxStringLength < c.analysis.minStringLength then
    .error (.invalidArgument "analysis.min_string_length exceeds max_string_length")
  else .ok ()

def readUnchecked (v : Option Json) : Except AtlasError SpaceConfig :=
  match v.bind ofJson? with
  | some c => .ok c
  | none => .error (.serialization "settings do not have the expected form")

def parseUnchecked (text : String) : Except AtlasError SpaceConfig :=
  readUnchecked (Json.parseFor? (.members sections) text)

def parse (text : String) : Except AtlasError SpaceConfig := do
  let c ← parseUnchecked text
  c.validate
  pure c

def text (c : SpaceConfig) : String := c.toJson.pretty

end SpaceConfig

end BinaryAtlas
