import BinaryAtlas.Text.Hexadecimal

/-!
What can go wrong. Reading where nothing is mapped, decoding no bytes or writing past a segment are
no errors: those calls answer with less. An `AtlasError` is for broken contracts of a call, for text
that cannot be read and for trouble with files.
-/

set_option autoImplicit false

namespace BinaryAtlas

inductive AtlasError where
  | invalidArgument (text : String)
  | segmentOverlap (start stop : Word)
  | notFound (text : String)
  | parse (text : String)
  | typeCycle (name : String)
  | unsupportedArchitecture (name : String)
  | missingArchitecture
  | storage (text : String)
  | io (text : String)
  | serialization (text : String)
  | timeout (seconds : Word)
  | observer (text : String)
  | internal (text : String)
  deriving DecidableEq, Inhabited

namespace AtlasError

def kind : AtlasError → String
  | invalidArgument _ => "InvalidArgument"
  | segmentOverlap _ _ => "SegmentOverlap"
  | notFound _ => "NotFound"
  | parse _ => "Parse"
  | typeCycle _ => "TypeCycle"
  | unsupportedArchitecture _ => "UnsupportedArchitecture"
  | missingArchitecture => "MissingArchitecture"
  | storage _ => "Storage"
  | io _ => "Io"
  | serialization _ => "Serialization"
  | timeout _ => "Timeout"
  | observer _ => "Observer"
  | internal _ => "Internal"

def message : AtlasError → String
  | invalidArgument text => s!"Invalid argument: {text}"
  | segmentOverlap start stop =>
    s!"Segment [{start.hexText}, {stop.hexText}) overlaps an existing segment"
  | notFound text => s!"Not found: {text}"
  | parse text => s!"Parse error: {text}"
  | typeCycle name => "Type reference cycle through '" ++ name ++ "'"
  | unsupportedArchitecture name => s!"Unsupported architecture: {name}"
  | missingArchitecture => "No default architecture set for this address space"
  | storage text => s!"Storage error: {text}"
  | io text => s!"I/O error: {text}"
  | serialization text => s!"Serialization error: {text}"
  | timeout seconds => s!"Operation timeout after {seconds}s"
  | observer text => s!"Observer error: {text}"
  | internal text => s!"Internal error: {text}"

/-- The caller could have known better: the argument was wrong whatever the data. -/
def isContractViolation : AtlasError → Bool
  | invalidArgument _ | segmentOverlap _ _ | missingArchitecture | unsupportedArchitecture _ => true
  | _ => false

end AtlasError

end BinaryAtlas
