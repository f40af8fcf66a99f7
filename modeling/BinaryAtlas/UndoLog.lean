import BinaryAtlas.Json
import BinaryAtlas.Metadata
import BinaryAtlas.Segment

/-!
What users did, entry by entry, so that it can be taken back and done again. Actions recorded
between the outermost `begin` and its `commit` form one entry; any other is an entry of its own.
-/

set_option autoImplicit false

namespace BinaryAtlas

inductive UndoAction where
  | write (address : Word) (before after : List UInt8)
  | insert (address : Word) (bytes : List UInt8)
  | remove (address : Word) (bytes : List UInt8)
  | segment (start : Word) (before after : Option Segment)
  | section (name : String) (before after : Option Section)
  | variable (address : Word) (before after : Option DataVariable)
  | symbol (key : SymbolKey) (before after : Option Symbol)
  | type (name : String) (before after : Option TypeRecord)
  | comment (address : Word) (before after : Option String)
  | value (key : String) (before after : Option Json)
  | function (address : Word) (before after : Bool)
  | tag (key : TagKey) (before after : Option TagReference)
  | reference (source target : Word) (before after : Bool)
  deriving DecidableEq

namespace UndoAction

def name : UndoAction → String
  | write _ _ _ => "write"
  | insert _ _ => "insert"
  | remove _ _ => "remove"
  | segment _ _ _ => "segment"
  | .section _ _ _ => "section"
  | .variable _ _ _ => "data_var"
  | symbol _ _ _ => "symbol"
  | type _ _ _ => "type"
  | comment _ _ _ => "comment"
  | value _ _ _ => "metadata"
  | function _ _ _ => "function"
  | tag _ _ _ => "tag"
  | reference _ _ _ _ => "data_ref"

end UndoAction

/-- The actions of an entry, in the order in which they were done. -/
abbrev UndoEntry := List UndoAction

structure UndoLog where
  past : List UndoEntry
  future : List UndoEntry
  group : List UndoAction
  depth : Nat
  replaying : Bool
  deriving DecidableEq, Inhabited

namespace UndoLog

def empty : UndoLog := ⟨[], [], [], 0, false⟩

def begin (log : UndoLog) : UndoLog := { log with depth := log.depth + 1 }

/-- Closes the innermost group. The outermost one becomes an entry, unless it holds nothing; the
answer says whether it did. -/
def commit (log : UndoLog) : UndoLog × Bool :=
  match log.depth with
  | 0 => (log, false)
  | 1 =>
    if log.group.isEmpty then ({ log with depth := 0 }, false)
    else ({ log with depth := 0, group := [], past := log.group :: log.past }, true)
  | depth + 2 => ({ log with depth := depth + 1 }, false)

def inGroup (log : UndoLog) : Bool := 0 < log.depth

/-- Notes what was done. What could have been done again is forgotten, and nothing is noted while
the log itself is replayed. -/
def record (log : UndoLog) (action : UndoAction) : UndoLog :=
  if log.replaying then log
  else if log.inGroup then { log with future := [], group := log.group ++ [action] }
  else { log with future := [], past := [action] :: log.past }

def popUndo (log : UndoLog) : UndoLog × Option UndoEntry :=
  ({ log with past := log.past.tail }, log.past.head?)

def popRedo (log : UndoLog) : UndoLog × Option UndoEntry :=
  ({ log with future := log.future.tail }, log.future.head?)

def pushUndo (log : UndoLog) (entry : UndoEntry) : UndoLog :=
  { log with past := entry :: log.past }

def pushRedo (log : UndoLog) (entry : UndoEntry) : UndoLog :=
  { log with future := entry :: log.future }

def entries (log : UndoLog) : List UndoEntry := log.past.reverse

def canUndo (log : UndoLog) : Bool := !log.past.isEmpty

def canRedo (log : UndoLog) : Bool := !log.future.isEmpty

def clear (log : UndoLog) : UndoLog := { log with past := [], future := [], group := [] }

end UndoLog

end BinaryAtlas
