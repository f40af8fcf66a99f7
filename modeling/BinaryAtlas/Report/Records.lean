import BinaryAtlas.Listing.Line
import BinaryAtlas.Metadata
import BinaryAtlas.PatchLog
import BinaryAtlas.QualifiedName
import BinaryAtlas.Function
import BinaryAtlas.Scheduler
import BinaryAtlas.Segment

/-!
Records as JSON values, for tools. Addresses, lengths and offsets are texts in hexadecimal, and
alternatives go by their names.
-/

set_option autoImplicit false

namespace BinaryAtlas

namespace Report

def hex (w : Word) : Json := .string w.hexText

def name {α : Type} [Named α] (a : α) : Json := .string (Named.name a)

def bytes (l : List UInt8) : Json := .string (hexOfBytes l)

def words (l : List Word) : Json := .list hex l

def text? (t : Option String) : Json := .optional .string t

def range (r : AddressRange) : Json := .array [hex r.start, hex r.stop]

def ranges (l : List AddressRange) : Json := .list range l

def run (r : PatchRun) : Json := .array [hex r.start, hex r.stop, name r.status]

def runs (log : PatchLog) : Json := .list run log.runs

def statuses (l : List ByteStatus) : Json := .string (String.join (l.map Named.name))

/-- The wording of trouble with files or with the form of data is left open, but for what concerns
databases. -/
def hasFixedMessage : AtlasError → Bool
  | .io _ => false
  | .serialization text =>
    text == "not a vspace database" || text == "database hash mismatch" ||
      "unsupported database version ".isPrefixOf text
  | _ => true

def error (e : AtlasError) : Json :=
  .object (("error", .string e.kind) ::
    if hasFixedMessage e then [("message", .string e.message)] else [])

def result {α : Type} (write : α → Json) : Except AtlasError α → Json
  | .ok a => write a
  | .error e => error e

def unit : Unit → Json := fun _ => .null

def segment (s : Segment) : Json :=
  .object [("auto", .bool s.auto), ("dlen", hex s.dataLength), ("end", hex s.stop),
    ("flags", .nat s.flags.bits), ("id", .nat s.id), ("offset", hex s.dataOffset),
    ("relocs", ranges s.relocations), ("start", hex s.start)]

def section_ (s : Section) : Json :=
  .object [("align", hex s.align), ("auto", .bool s.auto), ("end", hex s.range.stop),
    ("entry_size", hex s.entrySize), ("info", text? s.infoSection), ("info_data", hex s.infoData),
    ("linked", text? s.linkedSection), ("name", .string s.name), ("semantics", name s.semantics),
    ("start", hex s.range.start), ("type", .string s.typeName)]

def symbol (s : Symbol) : Json :=
  .array [name s.kind, name s.binding, .string s.scope, .string s.shortName, .string s.fullName,
    .string s.rawName, hex s.address, hex s.ordinal, .bool s.auto]

mutual

def type : DataType → Json
  | .void => .string "void"
  | .bool => .string "bool"
  | .integer width signed => .array [.string "int", hex width, .bool signed]
  | .float width => .array [.string "float", hex width]
  | .pointer target width => .array [.string "ptr", type target, hex width]
  | .array element count => .array [.string "array", type element, hex count]
  | .record name members width =>
    .array [.string "struct", text? name, .array (typesOfMembers members), hex width]
  | .enumeration name members width =>
    .array [.string "enum", text? name,
      .list (fun m => .array [.string m.1, .string (toString m.2)]) members, hex width]
  | .function result parameters variadic =>
    .array [.string "func", type result, .array (typesOfParameters parameters), .bool variadic]
  | .named name width => .array [.string "named", .string name, hex width]
termination_by structural t => t

def typesOfMembers : List StructMember → List Json
  | [] => []
  | .mk name offset t :: rest =>
    .array [.string name, hex offset, type t] :: typesOfMembers rest
termination_by structural l => l

def typesOfParameters : List Parameter → List Json
  | [] => []
  | .mk name t :: rest => .array [text? name, type t] :: typesOfParameters rest
termination_by structural l => l

end

def variable_ (v : DataVariable) : Json := .array [hex v.address, type v.type, .bool v.auto]

def string (s : StringReference) : Json := .array [name s.kind, hex s.start, hex s.length]

def reference (r : CrossReference) : Json :=
  .array [hex r.source, hex r.target, name r.kind, .bool r.auto]

def edge (e : BlockEdge) : Json := .array [name e.kind, .optional hex e.target]

def block (b : BasicBlock) : Json :=
  .array [hex b.start, hex b.stop, .list edge b.outgoing]

def function (f : Function) : Json :=
  .object [("auto", .bool f.auto), ("blocks", .list block f.blocks),
    ("calls", .list (fun c => .array [hex c.1, hex c.2]) f.calls), ("name", .string f.name),
    ("skipped", .bool f.skipped), ("start", hex f.start)]

def token (t : Token) : Json := .array [name t.kind, .string t.text, hex t.value]

def branch (b : Branch) : Json := .array [name b.kind, .optional hex b.target]

def instruction (i : Instruction) : Json :=
  .object [("branches", .list branch i.branches), ("ends_block", .bool i.endsBlock),
    ("ends_flow", .bool i.endsFlow), ("length", .nat i.length), ("text", .string i.text),
    ("tokens", .list token i.tokens), ("valid", .bool i.isValid)]

def line (withTokens : Bool) (l : ListingLine) : Json :=
  .array ([name l.kind, hex l.address, .optional hex l.function, .optional hex l.block,
    .string l.text] ++ if withTokens then [.list token l.tokens] else [])

def settings (s : ListingSettings) : Json :=
  .object [("bytes_per_row", .word s.bytesPerRow), ("max_symbol_width", .word s.maxSymbolWidth),
    ("show_addresses", .bool s.showAddresses),
    ("show_function_headers", .bool s.showFunctionHeaders)]

def scheduler (s : Scheduler) : Json :=
  .array [.string s.progress.text, .nat s.count, .nat s.total, name s.reported, .bool s.held,
    .bool s.initialDone, name s.reported,
    .list (fun (f, updates, submits) => .array [hex f, .nat updates, .nat submits]) s.activeInfo]

def declared (l : List (QualifiedName × DataType)) : Json :=
  .list (fun d => .array [.string d.1.text, type d.2]) l

end Report

end BinaryAtlas
