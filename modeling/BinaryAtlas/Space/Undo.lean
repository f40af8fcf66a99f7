import BinaryAtlas.Space.Functions
import BinaryAtlas.Space.Layout
import BinaryAtlas.Space.Notes
import BinaryAtlas.Space.Symbols
import BinaryAtlas.Space.Tags
import BinaryAtlas.Space.Types

/-!
Taking back and doing again. An entry is replayed action by action through the operations that
changed the space in the first place, so observers are told as usual; nothing is recorded meanwhile.
-/

set_option autoImplicit false

namespace BinaryAtlas

namespace Space

def redoAction : UndoAction → Op Unit
  | .write a _ after => discard (write a after)
  | .insert a bytes => discard (insert a bytes)
  | .remove a bytes => discard (remove a (.ofNatCapped bytes.length))
  | .segment start _ after => restoreSegment start after
  | .section name _ after => restoreSection name after
  | .variable a _ after => restoreVariable a after
  | .symbol key _ after => restoreSymbol key after
  | .type name _ after => restoreType name after
  | .comment a _ after => setComment a (after.getD "")
  | .value key _ after => restoreValue key after
  | .function a _ after =>
    if after then discard (createUserFunction a) else discard (removeFunction a false)
  | .tag key _ after => restoreTag key after
  | .reference source target _ after =>
    if after then discard (addReference source target)
    else discard (removeReference source target)

def inverse : UndoAction → UndoAction
  | .write a before after => .write a after before
  | .insert a bytes => .remove a bytes
  | .remove a bytes => .insert a bytes
  | .segment start before after => .segment start after before
  | .section name before after => .section name after before
  | .variable a before after => .variable a after before
  | .symbol key before after => .symbol key after before
  | .type name before after => .type name after before
  | .comment a before after => .comment a after before
  | .value key before after => .value key after before
  | .function a before after => .function a after before
  | .tag key before after => .tag key after before
  | .reference source target before after => .reference source target after before

def editUndoLog (f : UndoLog → UndoLog) : Op Unit :=
  .modify fun s => { s with undoLog := f s.undoLog }

def beginUndo : Op Unit := editUndoLog (·.begin)

def commitUndo : Op Bool :=
  .update fun s =>
    let (log, made) := s.undoLog.commit
    ({ s with undoLog := log }, made)

def clearUndo : Op Unit := editUndoLog (·.clear)

def undo : Op Bool := do
  -- Takes back the latest entry, its last action first.
  let log ← Op.read (·.undoLog)
  if log.inGroup then pure false
  else
    match log.popUndo with
    | (_, none) => pure false
    | (log, some entry) =>
      editUndoLog fun _ => { log with replaying := true }
      Op.forEach (fun action => redoAction (inverse action)) entry.reverse
      editUndoLog fun log => { log with replaying := false }.pushRedo entry
      pure true

def redo : Op Bool := do
  let log ← Op.read (·.undoLog)
  if log.inGroup then pure false
  else
    match log.popRedo with
    | (_, none) => pure false
    | (log, some entry) =>
      editUndoLog fun _ => { log with replaying := true }
      Op.forEach redoAction entry
      editUndoLog fun log => { log with replaying := false }.pushUndo entry
      pure true

end Space

end BinaryAtlas
