import BinaryAtlas.CrossReference
import BinaryAtlas.DataType
import BinaryAtlas.Segment
import BinaryAtlas.Symbol
import BinaryAtlas.Tag

/-!
What observers of an address space are told, one event for each change.
-/

set_option autoImplicit false

namespace BinaryAtlas

inductive ChangeEvent where
  | dataWritten (offset length : Word)
  | dataInserted (offset length : Word)
  | dataRemoved (offset length : Word)
  | functionAdded (start : Word)
  | functionRemoved (start : Word)
  | functionUpdated (start : Word)
  | functionUpdateRequested (start : Word)
  | variableAdded (variable_ : DataVariable)
  | variableRemoved (variable_ : DataVariable)
  | variableUpdated (variable_ : DataVariable)
  | commentUpdated (offset : Word)
  | tagTypeUpdated (type : TagType)
  | tagAdded (tag : TagReference)
  | tagUpdated (tag : TagReference)
  | tagRemoved (tag : TagReference)
  | symbolAdded (symbol : Symbol)
  | symbolUpdated (symbol : Symbol)
  | symbolRemoved (symbol : Symbol)
  | stringFound (string : StringReference)
  | stringRemoved (string : StringReference)
  | typeDefined (name : String) (type : DataType)
  | typeUndefined (name : String) (type : DataType)
  /-- A variable mentions a type that changed. -/
  | typeReferenceChanged (name : String) (address : Word)
  /-- A member of the named structure mentions a type that changed. -/
  | typeFieldReferenceChanged (name : String) (offset : Word)
  | valueUpdated (key : String)
  | segmentAdded (segment : Segment)
  | segmentRemoved (segment : Segment)
  | sectionAdded (section_ : Section)
  | sectionRemoved (section_ : Section)
  deriving DecidableEq, Inhabited

namespace ChangeEvent

def name : ChangeEvent → String
  | dataWritten _ _ => "data_written"
  | dataInserted _ _ => "data_inserted"
  | dataRemoved _ _ => "data_removed"
  | functionAdded _ => "function_added"
  | functionRemoved _ => "function_removed"
  | functionUpdated _ => "function_updated"
  | functionUpdateRequested _ => "function_update_requested"
  | variableAdded _ => "data_var_added"
  | variableRemoved _ => "data_var_removed"
  | variableUpdated _ => "data_var_updated"
  | commentUpdated _ => "data_metadata_updated"
  | tagTypeUpdated _ => "tag_type_updated"
  | tagAdded _ => "tag_added"
  | tagUpdated _ => "tag_updated"
  | tagRemoved _ => "tag_removed"
  | symbolAdded _ => "symbol_added"
  | symbolUpdated _ => "symbol_updated"
  | symbolRemoved _ => "symbol_removed"
  | stringFound _ => "string_found"
  | stringRemoved _ => "string_removed"
  | typeDefined _ _ => "type_defined"
  | typeUndefined _ _ => "type_undefined"
  | typeReferenceChanged _ _ => "type_ref_changed"
  | typeFieldReferenceChanged _ _ => "type_field_ref_changed"
  | valueUpdated _ => "metadata_updated"
  | segmentAdded _ => "segment_added"
  | segmentRemoved _ => "segment_removed"
  | sectionAdded _ => "section_added"
  | sectionRemoved _ => "section_removed"

def wakesAnalysis : ChangeEvent → Bool
  | functionAdded _ | functionUpdateRequested _ => true
  | _ => false

def isAboutSymbol : ChangeEvent → Bool
  | symbolAdded _ | symbolUpdated _ | symbolRemoved _ => true
  | _ => false

end ChangeEvent

end BinaryAtlas
