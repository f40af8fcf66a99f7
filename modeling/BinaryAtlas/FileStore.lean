import BinaryAtlas.AtlasError
import BinaryAtlas.Table

/-!
A directory of files. A file is replaced as a whole or not at all; a name with a slash asks for a
directory that is not there.
-/

set_option autoImplicit false

namespace BinaryAtlas

structure FileStore where
  files : Table String (List UInt8)
  deriving Inhabited

namespace FileStore

def empty : FileStore := ⟨.empty⟩

def contents? (store : FileStore) (name : String) : Option (List UInt8) := store.files.get? name

def accepts (name : String) : Bool := name != "" && !name.toList.contains '/'

def write (store : FileStore) (name : String) (bytes : List UInt8) : Except AtlasError FileStore :=
  if accepts name then .ok ⟨store.files.insert name bytes⟩
  else .error (.io "no such directory")

def writeNew (store : FileStore) (name : String) (bytes : List UInt8) :
    Except AtlasError FileStore :=
  if accepts name && store.files.contains name then .error (.io "the file exists")
  else store.write name bytes

def read (store : FileStore) (name : String) : Except AtlasError (List UInt8) :=
  match store.contents? name with
  | some bytes => .ok bytes
  | none => .error (.io "no such file")

end FileStore

end BinaryAtlas
