import BinaryAtlas.Proofs.Mirror.Keys

/-!
A copy of the tables of a space that is kept up to date by nothing but the events that are told. It
leaves out who made a record, the identifiers of types, and relocations.
-/

set_option autoImplicit false

namespace BinaryAtlas

namespace Table

variable {K V W : Type} [Ord K] [Std.TransOrd K] [Std.LawfulEqOrd K]

theorem mapValues_insert (t : Table K V) (k : K) (v : V) (f : V → W) :
    (t.insert k v).mapValues (fun _ => f) = (t.mapValues fun _ => f).insert k (f v) := by
  classical
  apply ext_get?
  intro key
  rw [get?_mapValues, get?_insert, get?_insert, get?_mapValues]
  split <;> rfl

theorem mapValues_erase (t : Table K V) (k : K) (f : V → W) :
    (t.erase k).mapValues (fun _ => f) = (t.mapValues fun _ => f).erase k := by
  classical
  apply ext_get?
  intro key
  rw [get?_mapValues, get?_erase, get?_erase, get?_mapValues]
  split <;> rfl

theorem mapValues_mapValues {U : Type} (t : Table K V) (f : V → W) (g : W → U) :
    (t.mapValues fun _ => f).mapValues (fun _ => g) = t.mapValues fun _ v => g (f v) := by
  apply ext_get?
  intro k
  rw [get?_mapValues, get?_mapValues, get?_mapValues, Option.map_map]
  rfl

end Table

/-- What an observer of a space has noted. -/
structure Mirror where
  dataVariables : Table Word DataVariable
  symbols : Table SymbolKey Symbol
  types : Table String DataType
  tags : Table TagKey TagReference
  strings : Table Word StringReference
  map : SegmentMap
  deriving DecidableEq

def DataVariable.bare (v : DataVariable) : DataVariable := { v with auto := false }

def Symbol.bare (s : Symbol) : Symbol := { s with auto := false }

def TagReference.bare (r : TagReference) : TagReference := { r with auto := false }

namespace SegmentMap

/-- A map without relocations, and without knowledge of the numbers that were issued. -/
def bare (m : SegmentMap) : SegmentMap :=
  { m with
    autoSegments := m.autoSegments.mapValues fun _ => Segment.bare
    userSegments := m.userSegments.mapValues fun _ => Segment.bare
    lastId := 0 }

theorem bare_put (m : SegmentMap) (s : Segment) : (m.put s).bare = m.bare.put s.bare := by
  cases auto : s.auto <;>
    simp [put, withLayer, layer, bare, Segment.bare, Segment.start, auto, Table.mapValues_insert]

theorem bare_remove (m : SegmentMap) (start : Word) (auto : Bool) :
    (m.remove start auto).1.bare = (m.bare.remove start auto).1 := by
  cases auto <;> simp [remove, withLayer, layer, bare, Table.mapValues_erase]

theorem bare_addSection (m : SegmentMap) (s : Section) :
    (m.addSection s).1.bare = (m.bare.addSection s).1 := by
  unfold addSection
  split <;> rfl

theorem bare_removeSection (m : SegmentMap) (name : String) (auto : Bool) :
    (m.removeSection name auto).1.bare = (m.bare.removeSection name auto).1 := by
  cases auto <;> rfl

end SegmentMap

namespace Mirror

variable {m : Mirror} {e e' : ChangeEvent}

def hear (m : Mirror) : ChangeEvent → Mirror
  | .variableAdded v | .variableUpdated v =>
    { m with dataVariables := m.dataVariables.insert v.address v.bare }
  | .variableRemoved v => { m with dataVariables := m.dataVariables.erase v.address }
  | .symbolAdded s | .symbolUpdated s => { m with symbols := m.symbols.insert s.key s.bare }
  | .symbolRemoved s => { m with symbols := m.symbols.erase s.key }
  | .typeDefined name type => { m with types := m.types.insert name type }
  | .typeUndefined name _ => { m with types := m.types.erase name }
  | .tagAdded r | .tagUpdated r => { m with tags := m.tags.insert r.key r.bare }
  | .tagRemoved r => { m with tags := m.tags.erase r.key }
  | .stringFound s => { m with strings := m.strings.insert s.start s }
  | .stringRemoved s => { m with strings := m.strings.erase s.start }
  | .segmentAdded s => { m with map := m.map.put s.bare }
  | .segmentRemoved s => { m with map := (m.map.remove s.start s.auto).1 }
  | .sectionAdded s => { m with map := (m.map.addSection s).1 }
  | .sectionRemoved s => { m with map := (m.map.removeSection s.name s.auto).1 }
  | _ => m

def hearAll (m : Mirror) (events : List ChangeEvent) : Mirror := events.foldl hear m

def notice (m : Mirror) : Notice → Mirror
  | .changed event => m.hear event
  | .completed _ => m

/-- The copy of someone who was told of all that. -/
def follow (m : Mirror) (notices : List Notice) : Mirror := notices.foldl notice m

theorem hearAll_append (m : Mirror) (events more : List ChangeEvent) :
    m.hearAll (events ++ more) = (m.hearAll events).hearAll more :=
  List.foldl_append

theorem follow_append (m : Mirror) (notices more : List Notice) :
    m.follow (notices ++ more) = (m.follow notices).follow more :=
  List.foldl_append

theorem follow_changed (m : Mirror) (events : List ChangeEvent) :
    m.follow (events.map Notice.changed) = m.hearAll events := by
  rw [follow, List.foldl_map]
  rfl

theorem hearAll_silent {events : List ChangeEvent}
    (silent : ∀ e ∈ events, ∀ m : Mirror, m.hear e = m) (m : Mirror) : m.hearAll events = m := by
  induction events with
  | nil => rfl
  | cons e rest ih =>
    show (m.hear e).hearAll rest = m
    rw [silent e List.mem_cons_self, ih fun e member => silent e (List.mem_cons_of_mem _ member)]

theorem hear_symbols (about : e.isAboutSymbol = true) :
    ∃ f : Table SymbolKey Symbol → Table SymbolKey Symbol,
      ∀ m : Mirror, m.hear e = { m with symbols := f m.symbols } := by
  cases e with
  | symbolAdded s => exact ⟨(·.insert s.key s.bare), fun _ => rfl⟩
  | symbolUpdated s => exact ⟨(·.insert s.key s.bare), fun _ => rfl⟩
  | symbolRemoved s => exact ⟨(·.erase s.key), fun _ => rfl⟩
  | _ => exact nomatch about

theorem hear_beside_symbols (other : e.isAboutSymbol = false) (m : Mirror)
    (symbols : Table SymbolKey Symbol) :
    { m with symbols := symbols }.hear e = { m.hear e with symbols := symbols } ∧
      (m.hear e).symbols = m.symbols := by
  cases e <;> first | exact ⟨rfl, rfl⟩ | simp [ChangeEvent.isAboutSymbol] at other

/-- Events about symbols and other events may change places. -/
theorem hear_comm (about : e.isAboutSymbol = true) (other : e'.isAboutSymbol = false) (m : Mirror) :
    (m.hear e).hear e' = (m.hear e').hear e := by
  obtain ⟨f, heard⟩ := hear_symbols about
  obtain ⟨beside, kept⟩ := hear_beside_symbols other m (f m.symbols)
  rw [heard, heard, beside, kept]

theorem hearAll_comm {events : List ChangeEvent} (about : ∀ e ∈ events, e.isAboutSymbol = true)
    (other : e'.isAboutSymbol = false) (m : Mirror) :
    (m.hear e').hearAll events = (m.hearAll events).hear e' := by
  induction events generalizing m with
  | nil => rfl
  | cons e rest ih =>
    show ((m.hear e').hear e).hearAll rest = ((m.hear e).hearAll rest).hear e'
    rw [← hear_comm (about e List.mem_cons_self) other,
      ih fun e member => about e (List.mem_cons_of_mem _ member)]

end Mirror

namespace Metadata

/-- The records that are copied are the same. -/
structure SameRecords (m m' : Metadata) : Prop where
  dataVariables : m'.dataVariables = m.dataVariables
  symbols : m'.symbols = m.symbols
  types : m'.types = m.types
  tags : m'.tags = m.tags
  strings : m'.strings = m.strings

namespace SameRecords

variable {m m' m'' : Metadata}

theorem refl (m : Metadata) : m.SameRecords m := ⟨rfl, rfl, rfl, rfl, rfl⟩

theorem trans (first : m.SameRecords m') (second : m'.SameRecords m'') : m.SameRecords m'' :=
  ⟨second.dataVariables.trans first.dataVariables, second.symbols.trans first.symbols,
    second.types.trans first.types, second.tags.trans first.tags,
    second.strings.trans first.strings⟩

theorem foldl {α : Type} {f : Metadata → α → Metadata} (each : ∀ m a, SameRecords m (f m a))
    (items : List α) (m : Metadata) : m.SameRecords (items.foldl f m) := by
  induction items generalizing m with
  | nil => exact refl m
  | cons a rest ih => exact (each m a).trans (ih (f m a))

theorem keyed (same : m.SameRecords m') (keyed : m.Keyed) : m'.Keyed := by
  refine ⟨?_, ?_, ?_, ?_⟩
  · rw [same.dataVariables]
    exact keyed.dataVariables
  · rw [same.symbols]
    exact keyed.symbols
  · rw [same.tags]
    exact keyed.tags
  · rw [same.strings]
    exact keyed.strings

end SameRecords

theorem addReference_same (m : Metadata) (key : ReferenceKey) (auto : Bool) :
    m.SameRecords (m.addReference key auto) := ⟨rfl, rfl, rfl, rfl, rfl⟩

theorem removeReference_same (m : Metadata) (key : ReferenceKey) :
    m.SameRecords (m.removeReference key) := ⟨rfl, rfl, rfl, rfl, rfl⟩

end Metadata

/-- The copy that a space itself would make. -/
def Space.mirror (s : Space) : Mirror where
  dataVariables := s.metadata.dataVariables.mapValues fun _ => DataVariable.bare
  symbols := s.metadata.symbols.mapValues fun _ => Symbol.bare
  types := s.metadata.types.mapValues fun _ => TypeRecord.type
  tags := s.metadata.tags.mapValues fun _ => TagReference.bare
  strings := s.metadata.strings
  map := s.map.bare

end BinaryAtlas
