/-!
What a reader of JSON text wants of a value. Nothing has to be known of the other parts, so they may
hold what has no meaning: half a pair of surrogates, or a number beyond every double.
-/

set_option autoImplicit false

namespace BinaryAtlas

namespace Json

/-- How much of a value is wanted. What nobody wants has to be well formed, no more. -/
inductive Interest where
  | nothing
  /-- All of it; arrays and objects may be as many levels deep. -/
  | whole (levels : Nat)
  /-- The members with some names or, in an array, the items in the place of theirs. -/
  | members (wanted : List (String × Interest))

namespace Interest

def isWanted : Interest → Bool
  | nothing => false
  | _ => true

def inside? : Interest → Option Interest
  | whole 0 => none
  | whole (levels + 1) => some (whole levels)
  | other => some other

def ofMember (name : String) : Interest → Interest
  | members wanted => (wanted.lookup name).getD nothing
  | other => other

def ofFirst : Interest → Interest
  | members [] => nothing
  | members ((_, first) :: _) => first
  | other => other

def ofOthers : Interest → Interest
  | members wanted => members wanted.tail
  | other => other

def ofNames (names : List String) : Interest := members (names.map (·, whole 0))

end Interest

end Json

end BinaryAtlas
