import BinaryAtlas.Listing.Cursor
import BinaryAtlas.Report.Records
import BinaryAtlas.Search
import BinaryAtlas.Snapshot
import BinaryAtlas.Space.Declarations
import BinaryAtlas.Space.Layout

/-!
What can be seen of a space, its cursors and its snapshots, as JSON values.
-/

set_option autoImplicit false

namespace BinaryAtlas

namespace Report

def bounds (s : Space) : Json :=
  .object [("address_size", .nat s.addressSize),
    ("arch", .optional (.string ·.text) s.architecture), ("debug", .string s.summary),
    ("empty", .bool s.isEmpty), ("end", hex s.stop), ("endian", name s.endianness),
    ("executable", .bool s.backend.isExecutable), ("len", hex s.length),
    ("parent", text? s.parentView), ("relocatable", .bool s.backend.isRelocatable),
    ("start", hex s.start), ("view", .string s.viewType)]

def place (s : Space) (a : Word) : Json :=
  .object [("backed", .bool (s.isStored a)), ("code", .bool (s.hasCodeSemantics a)),
    ("extern", .bool (s.hasExternalSemantics a)), ("next", hex (s.nextValid a)),
    ("r", .bool (s.isReadable a)), ("valid", .bool (s.isValid a)), ("w", .bool (s.isWritable a)),
    ("wsem", .bool (s.hasWritableSemantics a)), ("x", .bool (s.isExecutableAt a))]

def snapshot (s : Snapshot) : Json :=
  .object [("arch", text? s.architecture), ("contents", bytes s.contents),
    ("entry_points", words s.entryPoints), ("mods", .list run s.modifications),
    ("sections", .list section_ s.sections), ("segments", .list segment s.segments),
    ("user_functions", words s.userFunctions), ("view", .string s.viewType)]

def cursor (withTokens : Bool) (s : Space) (c : ListingCursor) : Json :=
  .object [("addr", hex c.address), ("lines", .list (line withTokens) c.lines),
    ("next", .bool (c.hasNext s)), ("past_end", .bool c.pastEnd), ("prev", .bool (c.hasPrevious s))]

def searchMatch (withTokens : Bool) (m : SearchMatch) : Json :=
  let value : Json := match m.value with
    | .data l => .array [.string "data", bytes l]
    | .text t => .array [.string "text", .string t]
    | .constant w => .array [.string "constant", hex w]
  .array [hex m.address, value, .optional (line withTokens) m.line]

def declarations (d : Declarations) : Json :=
  .object [("functions", declared d.functions), ("types", declared d.types),
    ("variables", declared d.dataVariables)]

def parsedType (parsed : DataType × QualifiedName) : Json :=
  .array [.string parsed.2.text, type parsed.1]

def backendFields (b : Backend) (map : SegmentMap) (storage : Storage) (a : Word) (length : Nat) :
    List (String × Json) :=
  [("address_size", .nat b.addressSize), ("endian", name b.defaultEndianness),
    ("entry", .optional hex b.entryPoint?), ("executable", .bool b.isExecutable),
    ("flags", .array [.bool (b.isValid map storage a), .bool (b.isReadable map storage a),
      .bool (b.isWritable map storage a), .bool (b.isExecutableAt map a),
      .bool (b.isStored map storage a)]),
    ("len", hex (b.length map storage)), ("mod", .optional name (b.status? map storage a)),
    ("name", .string b.name), ("next", hex (b.nextValid map storage a)),
    ("read", bytes (b.read map storage a length)), ("relocatable", .bool b.isRelocatable),
    ("start", hex (b.start map))]

end Report

end BinaryAtlas
