import BinaryAtlas.Space.Bytes
import BinaryAtlas.Space.Layout

/-!
Making spaces: from storage of their own or as views of another space, and the kinds of view that
can be asked for by name.
-/

set_option autoImplicit false

namespace BinaryAtlas

/-- What a new space is made of. What is missing comes from the parent, or has a default. -/
structure SpacePlan where
  storage : Option Storage := none
  backend : Option Backend := none
  architecture : Option Architecture := none
  config : Option SpaceConfig := none
  parent : Option Space := none

namespace SpacePlan

def build (plan : SpacePlan) : Except AtlasError Space := do
  let config := (plan.config <|> plan.parent.map (·.config)).getD {}
  config.validate
  match plan.storage <|> plan.parent.map (·.storage) with
  | none => .error (.invalidArgument "address space needs storage or a parent")
  | some storage =>
    pure
      { backend := plan.backend.getD (.mapped "")
        storage := storage
        map := .empty
        metadata := .empty
        functions := .empty
        undoLog := .empty
        scheduler := .initial
        architecture := plan.architecture <|> plan.parent.bind (·.architecture)
        config := config
        parentView := plan.parent.map (·.viewType)
        bulk := ⟨0, []⟩
        idsMade := 0 }

end SpacePlan

namespace Space

def derive (s : Space) (backend : Backend) : Except AtlasError Space :=
  { parent := some s, backend := some backend : SpacePlan }.build

end Space

inductive ViewType where
  | raw
  /-- All stored bytes in one segment at some address. -/
  | mapped (base : Word)
  deriving DecidableEq, Inhabited

namespace ViewType

def name : ViewType → String
  | raw => "Raw"
  | mapped _ => "Mapped"

def accepts (s : Space) : ViewType → Bool
  | raw => true
  | mapped _ => 0 < s.storage.length

def mappedFlags : SegmentFlags := .ofBits 0x1f

def create (s : Space) : ViewType → Except AtlasError Space
  | raw => s.derive .raw
  | mapped base => do
    let view ← s.derive (.mapped "")
    let length := view.storage.length
    match (Space.addSegmentOfLayout base length 0 length mappedFlags true view).collect with
    | (_, .error e, _) => .error e
    | (_, .ok _, view) => pure view

end ViewType

structure ViewTypeRegistry where
  types : List ViewType
  deriving DecidableEq, Inhabited

namespace ViewTypeRegistry

def empty : ViewTypeRegistry := ⟨[]⟩

def register (r : ViewTypeRegistry) (type : ViewType) : ViewTypeRegistry :=
  ⟨r.types.filter (·.name != type.name) ++ [type]⟩

def standard : ViewTypeRegistry := (empty.register .raw).register (.mapped 0)

def get? (r : ViewTypeRegistry) (name : String) : Option ViewType :=
  r.types.find? (·.name == name)

def names (r : ViewTypeRegistry) : List String := r.types.map (·.name)

def namesFor (r : ViewTypeRegistry) (s : Space) : List String :=
  (r.types.filter (·.accepts s)).map (·.name)

def create (r : ViewTypeRegistry) (name : String) (s : Space) : Except AtlasError Space :=
  match r.get? name with
  | none => .error (.notFound s!"view type {name}")
  | some type =>
    if type.accepts s then type.create s
    else .error (.invalidArgument s!"view type {name} does not accept this data")

end ViewTypeRegistry

end BinaryAtlas
