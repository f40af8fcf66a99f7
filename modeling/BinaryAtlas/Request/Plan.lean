import BinaryAtlas.Decoder.Registry
import BinaryAtlas.Decoder.Toy
import BinaryAtlas.Request.Records
import BinaryAtlas.Snapshot
import BinaryAtlas.ViewType

/-!
Spaces as requests plan them, with the media, backends and instruction sets that can be asked for by
name.
-/

set_option autoImplicit false

namespace BinaryAtlas

namespace Request

def architecture (name : String) : Except AtlasError Architecture :=
  match name with
  | "toy" => .ok Toy.little
  | "toybe" => .ok Toy.big
  | _ => ArchitectureRegistry.standard.require name

def backend (name : String) : Backend :=
  if name == "raw" then .raw
  else if name.startsWith "named:" then .mapped (name.drop 6).toString
  else .mapped ""

/-- Bytes that the caller keeps. An eager provider hands over all bytes from the offset on, and
says that it took three more bytes than it did. -/
def provider (eager writable : Bool) : Provider where
  read held offset length :=
    let rest := held.drop offset.toNat
    if eager then rest else rest.take length
  write? :=
    if writable then
      some fun held offset data =>
        (Storage.overwrite held offset.toNat data,
          Storage.room held offset.toNat data + if eager then 3 else 0)
    else none

def medium (name : String) : Medium :=
  match name with
  | "file" => .file
  | "readonly" => .provider (provider false false)
  | "callback" => .provider (provider false true)
  | "over" => .provider (provider true true)
  | _ => .memory

def toStorage (j : Json) (logKey : String) : Storage :=
  ⟨medium (text j "storage"), bytes j "bytes", log j logKey⟩

def viewTypes (j : Json) : ViewTypeRegistry :=
  (items j "register").foldl
    (fun registry t =>
      registry.register (match t with | .string _ => .raw | _ => .mapped (word t "base")))
    (if flag j "empty" then .empty else .standard)

def withoutScheduling (members : List (String × Json)) : List (String × Json) :=
  match members.lookup "analysis" with
  | none => ("analysis", .object [("auto_schedule", .bool false)]) :: members
  | some (.object analysis) =>
    if (analysis.lookup "auto_schedule").isSome then members
    else
      ("analysis", .object (("auto_schedule", .bool false) :: analysis)) ::
        members.filter (·.1 != "analysis")
  | some _ => members

/-- The configuration: as a text, as an object, or `none` to take over that of the parent. -/
def config? (j : Json) : Except AtlasError (Option SpaceConfig) :=
  match field? j "config" with
  | some (.string "inherit") => .ok none
  | some (.string t) => (SpaceConfig.parseUnchecked t).map some
  | other =>
    let settings := match (other.getD (.object [])).canonical with
      | .object members => .object (withoutScheduling members)
      | settings => settings
    (SpaceConfig.readUnchecked (some settings)).map some

def addListedSegment (s : Space) (j : Json) : Except AtlasError Space :=
  let part := fun i => toWord (item j i)
  let added := (Space.addSegmentOfLayout (part 0) (part 1) (part 2) (part 3)
    (.ofBits (toNumber (item j 4))) (!toFlag (item j 5)) s).collect
  match added with
  | (_, .ok _, s) => .ok s
  | (_, .error e, _) => .error e

def buildSpace (j : Json) (parent : Option Space) : Except AtlasError Space := do
  let architecture ← (text? j "arch").mapM architecture
  let config ← config? j
  let storage := if given j "bytes" then some (toStorage j "mods") else none
  let space ← { storage := storage, backend := (text? j "backend").map backend,
                architecture := architecture, config := config, parent := parent : SpacePlan }.build
  (items j "segments").foldlM addListedSegment space

def damage (j : Json) (encoded : List UInt8) : List UInt8 :=
  let changed := match field? j "flip" with
    | some i => encoded.modify (toNumber i) (· ^^^ (number j "mask").toUInt8)
    | none => encoded
  let kept := match field? j "keep" with
    | some n => changed.take (toNumber n)
    | none => changed
  kept ++ bytes j "append"

def restoreSpace (j : Json) (s : Space) : Except AtlasError Space := do
  let saved ← Snapshot.decode (s.snapshot ⟨0, 0⟩).encode
  let config ← (field? j "config").mapM fun v => SpaceConfig.readUnchecked (some v.canonical)
  { saved with
    viewType := (text? j "view").getD saved.viewType
    architecture := text? j "arch" <|> saved.architecture
    contents := ((field? j "contents").map toBytes).getD saved.contents
    modifications := if given j "mods" then (items j "mods").map toRun else saved.modifications
    config := config.getD saved.config
    segments := saved.segments ++ (items j "segments").map toUncheckedSegment :
    Snapshot }.restore (viewTypes j)

end Request

end BinaryAtlas
