import BinaryAtlas.Named
import BinaryAtlas.Uuid

/-!
Tags are short remarks of a named type, pinned to addresses.
-/

set_option autoImplicit false

namespace BinaryAtlas

inductive TagTypeKind where
  | user
  | notification
  | bookmarks
  deriving DecidableEq, Inhabited

namespace TagTypeKind

instance : Named TagTypeKind where
  all := [user, notification, bookmarks]
  name
    | user => "User"
    | notification => "Notification"
    | bookmarks => "Bookmarks"

end TagTypeKind

structure TagType where
  id : Uuid
  name : String
  icon : String
  visible : Bool
  kind : TagTypeKind
  deriving DecidableEq, Inhabited

structure Tag where
  id : Uuid
  type : Uuid
  data : String
  deriving DecidableEq, Inhabited

structure TagReference where
  tag : Tag
  address : Word
  auto : Bool
  deriving DecidableEq, Inhabited

end BinaryAtlas
