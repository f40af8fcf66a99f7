import BinaryAtlas.Proofs.Space.Always
import BinaryAtlas.Proofs.Storage.Recording
import BinaryAtlas.Snapshot
import BinaryAtlas.Space.Declarations
import BinaryAtlas.Space.Undo

/-!
The spaces that a program can get to: made from storage, from another space or from a snapshot, and
changed by anything that can be asked of a space, while those who listen change it as well.
-/

set_option autoImplicit false

namespace BinaryAtlas

/-- What can be asked of a space and may change it. -/
inductive SpaceEdit where
  | write (a : Word) (data : List UInt8)
  | insert (a : Word) (data : List UInt8)
  | remove (a length : Word)
  /-- Another space changes the storage that this one has in common with it, and tells of that. -/
  | share (edit : StorageEdit) (event : ChangeEvent)
  | addSegment (segment : Segment)
  | removeSegment (start : Word) (auto : Bool)
  | addSection (section_ : Section) (auto : Bool)
  | removeSection (name : String) (auto : Bool)
  | defineRelocation (range : AddressRange)
  | setComment (a : Word) (text : String)
  | storeValue (key : String) (value : Json) (auto : Bool)
  | removeValue (key : String)
  | defineVariable (v : DataVariable)
  | undefineVariable (a : Word) (auto : Bool)
  | defineSymbol (symbol : Symbol)
  | undefineSymbol (key : SymbolKey) (auto : Bool)
  | defineImport (slot : Symbol) (function : Word)
  | beginBulk
  | endBulk
  | defineType (name : String) (type : DataType) (auto : Bool)
  | undefineType (name : String) (auto : Bool)
  | renameType (old new : String)
  | addTagType (type : TagType)
  | createTagType (name icon : String)
  | removeTagType (id : Uuid)
  | addTag (a : Word) (tag : Tag) (auto : Bool)
  | createTag (a : Word) (type : Uuid) (data : String) (auto : Bool)
  | removeTag (a : Word) (id : Uuid) (auto : Bool)
  | removeTagsOfType (a : Word) (type : Uuid) (auto : Bool)
  | updateTag (id : Uuid) (data : String)
  | addReference (source target : Word)
  | removeReference (source target : Word)
  | addFunction (a : Word)
  | createUserFunction (a : Word)
  | removeFunction (a : Word) (auto : Bool)
  | addEntryPoint (a : Word)
  | reanalyzeFunction (a : Word)
  | reanalyze
  | requestAnalysis
  | abortAnalysis
  | runRequested (fuel : Nat)
  /-- Holding analysis back, or waiting for its end. -/
  | schedule (f : Scheduler → Scheduler)
  | setArchitecture (architecture : Option Architecture)
  | beginUndo
  | commitUndo
  | clearUndo
  | undo
  | redo
  /-- Other spaces make identifiers. -/
  | passIds (count : Nat)

namespace SpaceEdit

def run : SpaceEdit → Op Unit
  | write a data => discard (Space.write a data)
  | insert a data => discard (Space.insert a data)
  | remove a length => discard (Space.remove a length)
  | share edit event => do
    .modify fun s => { s with storage := edit.apply s.storage }
    .notify (.changed event)
  | addSegment segment => discard (Space.addSegment segment)
  | removeSegment start auto => discard (Space.removeSegment start auto)
  | addSection section_ auto => Space.addSection section_ auto
  | removeSection name auto => discard (Space.removeSection name auto)
  | defineRelocation range => discard (Space.defineRelocation range)
  | setComment a text => Space.setComment a text
  | storeValue key value auto => Space.storeValue key value auto
  | removeValue key => discard (Space.removeValue key)
  | defineVariable v => Space.defineVariable v
  | undefineVariable a auto => discard (Space.undefineVariable a auto)
  | defineSymbol symbol => Space.defineSymbol symbol
  | undefineSymbol key auto => discard (Space.undefineSymbol key auto)
  | defineImport slot function => Space.defineImport slot function
  | beginBulk => Space.beginBulk
  | endBulk => Space.endBulk
  | defineType name type auto => discard (Space.defineType name type auto)
  | undefineType name auto => discard (Space.undefineType name auto)
  | renameType old new => discard (Space.renameType old new)
  | addTagType type => Space.addTagType type
  | createTagType name icon => discard (Space.createTagType name icon)
  | removeTagType id => discard (Space.removeTagType id)
  | addTag a tag auto => discard (Space.addTag a tag auto)
  | createTag a type data auto => discard (Space.createTag a type data auto)
  | removeTag a id auto => discard (Space.removeTag a id auto)
  | removeTagsOfType a type auto => discard (Space.removeTagsOfType a type auto)
  | updateTag id data => discard (Space.updateTag id data)
  | addReference source target => discard (Space.addReference source target)
  | removeReference source target => discard (Space.removeReference source target)
  | addFunction a => discard (Space.addFunction a)
  | createUserFunction a => discard (Space.createUserFunction a)
  | removeFunction a auto => discard (Space.removeFunction a auto)
  | addEntryPoint a => Space.addEntryPoint a
  | reanalyzeFunction a => discard (Space.reanalyzeFunction a)
  | reanalyze => Space.reanalyze
  | requestAnalysis => Space.requestAnalysis
  | abortAnalysis => Space.abortAnalysis
  | runRequested fuel => Space.runRequested fuel
  | schedule f => Space.editScheduler f
  | setArchitecture architecture => Space.setArchitecture architecture
  | beginUndo => Space.beginUndo
  | commitUndo => discard Space.commitUndo
  | clearUndo => Space.clearUndo
  | undo => discard Space.undo
  | redo => discard Space.redo
  | passIds count => .modify fun s => { s with idsMade := s.idsMade + count }

end SpaceEdit

namespace Space

def Fits (s : Space) : Prop := s.storage.Fits

end Space

namespace Run

/-- The run comes to its end with a space. Whenever it told of something, those who listen may have
done some edits. -/
inductive Ends : Run Unit → Space → Prop where
  | done {s : Space} (fits : s.Fits) : Ends (.done () s) s
  | told {n : Notice} {s s' last : Space} {resume : Space → Run Unit} (fits : s.Fits)
      (edits : List SpaceEdit) (meanwhile : Ends (Op.forEach SpaceEdit.run edits s) s')
      (later : Ends (resume s') last) : Ends (.notify n s resume) last

/-- Someone can look at the space while the run is going on, or at its end. -/
inductive Shows : Run Unit → Space → Prop where
  | last {r : Run Unit} {s : Space} (ends : Ends r s) : Shows r s
  | told {n : Notice} {s : Space} {resume : Space → Run Unit} (fits : s.Fits) :
      Shows (.notify n s resume) s
  | meanwhile {n : Notice} {s seen : Space} {resume : Space → Run Unit} (fits : s.Fits)
      (edits : List SpaceEdit) (shows : Shows (Op.forEach SpaceEdit.run edits s) seen) :
      Shows (.notify n s resume) seen
  | later {n : Notice} {s s' seen : Space} {resume : Space → Run Unit} (fits : s.Fits)
      (edits : List SpaceEdit) (meanwhile : Ends (Op.forEach SpaceEdit.run edits s) s')
      (shows : Shows (resume s') seen) : Shows (.notify n s resume) seen

variable {good limit : Space → Prop} {r : Run Unit} {s : Space}

theorem ends_good (looser : ∀ s, s.Fits → limit s)
    (each : ∀ edit : SpaceEdit, edit.run.Preserves good limit)
    (ends : r.Ends s) (always : r.Always good limit) : good s ∧ limit s := by
  induction ends with
  | done fits => exact always
  | told fits edits _ _ meanwhile later =>
    obtain ⟨here, on⟩ := always (looser _ fits)
    obtain ⟨there, room⟩ := meanwhile (Op.preserves_forEach each edits _ here (looser _ fits))
    exact later (on _ there room)

theorem shows_good (looser : ∀ s, s.Fits → limit s)
    (each : ∀ edit : SpaceEdit, edit.run.Preserves good limit)
    (shows : r.Shows s) (always : r.Always good limit) : good s ∧ limit s := by
  induction shows with
  | last ends => exact ends_good looser each ends always
  | told fits => exact ⟨(always (looser _ fits)).1, looser _ fits⟩
  | meanwhile fits edits _ ih =>
    exact ih (Op.preserves_forEach each edits _ (always (looser _ fits)).1 (looser _ fits))
  | later fits edits meanwhile _ ih =>
    obtain ⟨here, on⟩ := always (looser _ fits)
    obtain ⟨there, room⟩ := ends_good looser each meanwhile
      (Op.preserves_forEach each edits _ here (looser _ fits))
    exact ih (on _ there room)

end Run

namespace Space

/-- The spaces that a program can get to. -/
inductive Reachable : Space → Prop where
  /-- From storage with a log of its own, or over the storage of another space. -/
  | built {plan : SpacePlan} {s : Space}
      (logged : ∀ storage, plan.storage = some storage → ∃ edits, PatchEdit.AllFit .empty edits ∧
        storage.log = edits.foldl PatchEdit.apply .empty)
      (parents : ∀ parent, plan.parent = some parent → Reachable parent)
      (made : plan.build = .ok s) (fits : s.Fits) : Reachable s
  | created {registry : ViewTypeRegistry} {name : String} {data s : Space}
      (reached : Reachable data) (made : registry.create name data = .ok s) (fits : s.Fits) :
      Reachable s
  | restored {snapshot : Snapshot} {registry : ViewTypeRegistry} {s : Space}
      (made : snapshot.restore registry = .ok s) (fits : s.Fits) : Reachable s
  | edited {s seen : Space} (reached : Reachable s) (edit : SpaceEdit)
      (shows : (edit.run s).Shows seen) : Reachable seen

section Quietly

/-- Whether a space fits wherever a run stops, while those who listen only take note. -/
def fitsQuietly : Run Unit → Bool
  | .done _ s => s.storage.fits
  | .notify _ s resume => s.storage.fits && fitsQuietly (resume s)

theorem ends_of_fitsQuietly {r : Run Unit} (fits : fitsQuietly r = true) :
    r.Ends r.collect.2.2 := by
  induction r with
  | done a s => exact .done (Storage.fits_iff.1 fits)
  | notify n s resume ih =>
    obtain ⟨here, later⟩ := Bool.and_eq_true_iff.1 fits
    have room : s.Fits := Storage.fits_iff.1 here
    exact .told room [] (.done room) (ih s later)

/-- The space after some edits of which everyone only takes note. -/
def afterwards (s : Space) (edits : List SpaceEdit) : Space :=
  edits.foldl (fun s edit => (edit.run s).collect.2.2) s

def staysFitting (s : Space) : List SpaceEdit → Bool
  | [] => true
  | edit :: rest => fitsQuietly (edit.run s) && ((edit.run s).collect.2.2).staysFitting rest

theorem afterwards_reachable {s : Space} (reached : Reachable s) {edits : List SpaceEdit}
    (fits : s.staysFitting edits = true) : Reachable (s.afterwards edits) := by
  induction edits generalizing s with
  | nil => exact reached
  | cons edit rest ih =>
    obtain ⟨first, later⟩ := Bool.and_eq_true_iff.1 fits
    exact ih (.edited reached edit (.last (ends_of_fitsQuietly first))) later

end Quietly

end Space

end BinaryAtlas
