import BinaryAtlas.AtlasError
import BinaryAtlas.Text.Blank
import BinaryAtlas.Text.Quoted

/-!
Names in nested scopes, written with `::` between the components.
-/

set_option autoImplicit false

namespace BinaryAtlas

/-- The components of a name, outermost first: at least one, and none empty. -/
structure QualifiedName where
  components : List String
  nonempty : components ≠ []
  proper : ∀ c ∈ components, c ≠ ""

namespace QualifiedName

theorem ext_components {a b : QualifiedName} (h : a.components = b.components) : a = b := by
  cases a; cases b; cases h; rfl

instance : DecidableEq QualifiedName := fun a b =>
  decidable_of_iff (a.components = b.components) ⟨ext_components, fun h => h ▸ rfl⟩

def ofComponents (components : List String) : Except AtlasError QualifiedName :=
  if h : components ≠ [] ∧ ∀ c ∈ components, c ≠ "" then .ok ⟨components, h.1, h.2⟩
  else .error (.invalidArgument s!"malformed qualified name {Quoted.listText components}")

def pieces : List Char → List (List Char)
  | [] => [[]]
  | ':' :: ':' :: rest => [] :: pieces rest
  | c :: rest =>
    match pieces rest with
    | [] => [[c]]
    | piece :: others => (c :: piece) :: others

theorem pieces_ne_nil (cs : List Char) : pieces cs ≠ [] := by
  fun_induction pieces cs <;> simp

/-- Reads a name; white space around a component does not belong to it. -/
def parse (text : String) : Except AtlasError QualifiedName :=
  ofComponents ((pieces text.toList).map (fun piece => String.ofList (trim piece)))

def name (q : QualifiedName) : String := q.components.getLast q.nonempty

def text (q : QualifiedName) : String := "::".intercalate q.components

end QualifiedName

end BinaryAtlas
