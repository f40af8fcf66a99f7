/-!
Closed sets of alternatives with a name each, read and shown by that name.
-/

set_option autoImplicit false

namespace BinaryAtlas

class Named (α : Type) where
  all : List α
  name : α → String

namespace Named

variable {α : Type} [Named α]

def find? (text : String) : Option α :=
  (all : List α).find? (fun a => name a == text)

theorem name_of_find? {text : String} {a : α} (h : find? text = some a) : name a = text := by
  have := List.find?_some h
  simpa using this

end Named

end BinaryAtlas
