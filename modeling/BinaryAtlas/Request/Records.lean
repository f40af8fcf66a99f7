import BinaryAtlas.CrossReference
import BinaryAtlas.Function
import BinaryAtlas.Listing.Line
import BinaryAtlas.PatchLog
import BinaryAtlas.Report.Events
import BinaryAtlas.Request.Fields
import BinaryAtlas.Search
import BinaryAtlas.Segment

/-!
Records as requests give them.
-/

set_option autoImplicit false

namespace BinaryAtlas

namespace Request

mutual

def toType : Json → DataType
  | .string t => if t == "bool" then .bool else .void
  | .array (.string "int" :: rest) =>
    .integer (toWord (rest.getD 0 .null)) (toFlag (rest.getD 1 .null))
  | .array (.string "float" :: rest) => .float (toWord (rest.getD 0 .null))
  | .array (.string "ptr" :: target :: rest) =>
    .pointer (toType target) (toWord (rest.getD 0 .null))
  | .array (.string "array" :: element :: rest) =>
    .array (toType element) (toWord (rest.getD 0 .null))
  | .array (.string "struct" :: name :: .array members :: rest) =>
    .record name.string? (toMembers members) (toWord (rest.getD 0 .null))
  | .array (.string "packed" :: name :: .array members :: _) =>
    .packed name.string? (toPackedMembers members)
  | .array (.string "enum" :: name :: members :: rest) =>
    .enumeration name.string?
      ((toItems members).map fun m => (toText (item m 0), toSigned (item m 1)))
      (toWord (rest.getD 0 .null))
  | .array (.string "func" :: result :: .array parameters :: rest) =>
    .function (toType result) (toParameters parameters) (toFlag (rest.getD 0 .null))
  | .array (.string "named" :: name :: rest) => .named (toText name) (toWord (rest.getD 0 .null))
  | _ => .void

def toMembers : List Json → List StructMember
  | [] => []
  | .array [name, offset, t] :: rest =>
    .mk (toText name) (toWord offset) (toType t) :: toMembers rest
  | _ :: rest => toMembers rest

def toPackedMembers : List Json → List (String × DataType)
  | [] => []
  | .array [name, t] :: rest => (toText name, toType t) :: toPackedMembers rest
  | _ :: rest => toPackedMembers rest

def toParameters : List Json → List Parameter
  | [] => []
  | .array [name, t] :: rest => .mk name.string? (toType t) :: toParameters rest
  | _ :: rest => toParameters rest

end

/-- An identifier: a number after `u:`, or after `#` the place of one among those met. -/
def toId (met : MetIds) (j : Json) : Uuid :=
  match (toText j).toList with
  | '#' :: digits => met.getD (digitsValue 10 digits - 1) ⟨0⟩
  | 'u' :: ':' :: digits => ⟨digitsValue 10 digits⟩
  | _ => ⟨0⟩

def toRun (j : Json) : PatchRun := ⟨toWord (item j 0), toWord (item j 1), toChoice (item j 2)⟩

def log (j : Json) (key : String) : PatchLog := .ofRuns ((items j key).map toRun)

def toToken (j : Json) : Token := ⟨toChoice (item j 0), toText (item j 1), toWord (item j 2)⟩

def toBranch (j : Json) : Branch :=
  ⟨toChoice (item j 0), match item j 1 with | .null => none | target => some (toWord target)⟩

def toSymbol (j : Json) : Symbol :=
  let s := Symbol.ofRawName (choice j "kind") (word j "addr") (text j "raw")
  { s with
    binding := choice j "binding"
    scope := text j "ns"
    ordinal := word j "ordinal"
    fullName := (text? j "full").getD s.fullName
    shortName := (text? j "short").getD s.shortName }

def toSection (j : Json) : Section :=
  let s := Section.ofLayout (text j "name") (word j "start") (word j "length")
    (choice j "semantics") (flag j "auto")
  let s := { s with typeName := (text? j "type").getD s.typeName }
  let s := if given j "linked" || given j "info" || given j "info_data" then
      s.withLinks (text? j "linked") (text? j "info") (word j "info_data")
    else s
  if given j "align" || given j "entry_size" then
    s.withLayout (word j "align") (word j "entry_size")
  else s

def toSegment (j : Json) : Except AtlasError Segment :=
  Segment.ofLayout (word j "start") (word j "length") (word j "offset") (word j "dlen")
    (.ofBits (number j "flags")) (flag j "auto")

def toUncheckedSegment (j : Json) : Segment where
  id := number j "id"
  range := .ofLength (word j "start") (word j "length")
  dataOffset := word j "offset"
  dataLength := word j "dlen"
  flags := .ofBits (number j "flags")
  auto := flag j "auto"
  relocations := []

def toStringReference (j : Json) : StringReference :=
  ⟨choice j "kind", word j "start", word j "length"⟩

def toReference (j : Json) : CrossReference :=
  ⟨word j "from", word j "to", choice j "kind", flag j "auto"⟩

def toTagType (met : MetIds) (j : Json) : TagType :=
  ⟨toId met (field j "id"), text j "name", text j "icon",
    ((field? j "visible").map toFlag).getD true, choice j "kind"⟩

def toFunction (j : Json) : Function :=
  { Function.unexplored (word j "start") (flag j "auto") with
    blocks := (items j "blocks").map fun b => ⟨toWord (item b 0), toWord (item b 1), []⟩ }

def toInstruction (j : Json) : Instruction :=
  ⟨number j "length", (items j "tokens").map toToken, (items j "branches").map toBranch⟩

def toSettings (j : Json) : ListingSettings :=
  let usual := ListingSettings.default
  ⟨(word? j "row").getD usual.bytesPerRow,
    ((field? j "addresses").map toFlag).getD usual.showAddresses,
    ((field? j "headers").map toFlag).getD usual.showFunctionHeaders,
    (word? j "width").getD usual.maxSymbolWidth⟩

def toQuery (j : Json) : SearchQuery :=
  match field? j "text", field? j "constant" with
  | some t, _ => .text (toText t)
  | none, some c => .constant (toWord c)
  | none, none => .data (bytes j "data")

def toError (j : Json) : AtlasError :=
  let t := text j "text"
  match text j "kind" with
  | "SegmentOverlap" => .segmentOverlap (word j "n") (word j "end")
  | "NotFound" => .notFound t
  | "Parse" => .parse t
  | "TypeCycle" => .typeCycle t
  | "UnsupportedArchitecture" => .unsupportedArchitecture t
  | "MissingArchitecture" => .missingArchitecture
  | "Storage" => .storage t
  | "Io" => .io t
  | "Serialization" => .serialization t
  | "Timeout" => .timeout (word j "n")
  | "Observer" => .observer t
  | "Internal" => .internal t
  | _ => .invalidArgument t

end Request

end BinaryAtlas
