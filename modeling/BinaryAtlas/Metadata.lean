import BinaryAtlas.CrossReference
import BinaryAtlas.DataType
import BinaryAtlas.Json
import BinaryAtlas.Symbol
import BinaryAtlas.Tag

/-!
What is known about an address space besides its bytes. Most records are either automatic or a
user's own, and an automatic definition never replaces a user's.
-/

set_option autoImplicit false

namespace BinaryAtlas

structure TypeRecord where
  id : Uuid
  type : DataType
  auto : Bool
  deriving DecidableEq, Inhabited

class Provenance (α : Type) where
  isAuto : α → Bool
  /-- The two say the same, whoever said it. -/
  sameValue : α → α → Bool

instance : Provenance DataVariable where
  isAuto v := v.auto
  sameValue v w := v.address == w.address && v.type == w.type

instance : Provenance Symbol where
  isAuto s := s.auto
  sameValue s t := { s with auto := false } == { t with auto := false }

instance : Provenance TagReference where
  isAuto r := r.auto
  sameValue r s := r.tag == s.tag && r.address == s.address

/-- Types are the same if they read the same, whatever their identifiers. -/
instance : Provenance TypeRecord where
  isAuto r := r.auto
  sameValue r s := r.type == s.type

inductive Defined (α : Type) where
  | added
  | updated (before : α)
  | unchanged (before : α)
  | ignored
  deriving DecidableEq

namespace Defined

def before? {α : Type} : Defined α → Option α
  | updated before => some before
  | unchanged before => some before
  | _ => none

def isIgnored {α : Type} : Defined α → Bool
  | ignored => true
  | _ => false

end Defined

namespace Table

variable {K V : Type} [Ord K] [Std.TransOrd K] [Std.LawfulEqOrd K] [Provenance V]

/-- Defines a record, unless it is automatic and a user's record is in its place. -/
def define (t : Table K V) (k : K) (v : V) : Table K V × Defined V :=
  match t.get? k with
  | none => (t.insert k v, .added)
  | some before =>
    if Provenance.isAuto v && !Provenance.isAuto before then (t, .ignored)
    else if Provenance.sameValue before v then (t.insert k v, .unchanged before)
    else (t.insert k v, .updated before)

/-- Takes a record out, unless it is a user's and the removal automatic. -/
def undefine (t : Table K V) (k : K) (auto : Bool) : Table K V × Option V :=
  match t.get? k with
  | none => (t, none)
  | some v => if auto && !Provenance.isAuto v then (t, none) else (t.erase k, some v)

end Table

structure TagKey where
  address : Word
  tag : Uuid
  deriving DecidableEq, Inhabited

namespace TagKey

instance : Ord TagKey := ⟨compareLex (compareOn TagKey.address) (compareOn TagKey.tag)⟩

instance : Std.TransOrd TagKey :=
  inferInstanceAs (Std.TransCmp (compareLex (compareOn TagKey.address) (compareOn TagKey.tag)))

instance : Std.LawfulEqOrd TagKey where
  eq_of_compare {a b} h := by
    have h : compareLex (compareOn TagKey.address) (compareOn TagKey.tag) a b = .eq := h
    simp only [compareLex, compareOn, Ordering.then_eq_eq, Std.compare_eq_iff_eq] at h
    cases a; cases b
    obtain ⟨rfl, rfl⟩ := h
    rfl

end TagKey

namespace ReferenceKind

def rank : ReferenceKind → Nat
  | code => 0
  | data => 1

instance : Ord ReferenceKind := ⟨compareOn rank⟩

instance : Std.TransOrd ReferenceKind := inferInstanceAs (Std.TransCmp (compareOn rank))

instance : Std.LawfulEqOrd ReferenceKind where
  eq_of_compare {a b} := by cases a <;> cases b <;> decide

end ReferenceKind

/-- A reference as seen from one of its ends. -/
structure ReferenceKey where
  near : Word
  far : Word
  kind : ReferenceKind
  deriving DecidableEq, Inhabited

namespace ReferenceKey

def order : ReferenceKey → ReferenceKey → Ordering :=
  compareLex (compareOn near) (compareLex (compareOn far) (compareOn kind))

instance : Ord ReferenceKey := ⟨order⟩

instance : Std.TransOrd ReferenceKey :=
  inferInstanceAs
    (Std.TransCmp (compareLex (compareOn near) (compareLex (compareOn far) (compareOn kind))))

instance : Std.LawfulEqOrd ReferenceKey where
  eq_of_compare {a b} h := by
    have h : order a b = .eq := h
    simp only [order, compareLex, compareOn, Ordering.then_eq_eq, Std.compare_eq_iff_eq] at h
    cases a; cases b
    obtain ⟨rfl, rfl, rfl⟩ := h
    rfl

def flip (k : ReferenceKey) : ReferenceKey := ⟨k.far, k.near, k.kind⟩

end ReferenceKey

structure Metadata where
  dataVariables : Table Word DataVariable
  symbols : Table SymbolKey Symbol
  types : Table String TypeRecord
  tagTypes : Table Uuid TagType
  tags : Table TagKey TagReference
  /-- References from their source, and whether they are automatic. -/
  outgoing : Table ReferenceKey Bool
  /-- The same references from their target. -/
  incoming : Table ReferenceKey Unit
  strings : Table Word StringReference
  comments : Table Word String
  values : Table String (Json × Bool)

namespace Metadata

def empty : Metadata :=
  ⟨.empty, .empty, .empty, .empty, .empty, .empty, .empty, .empty, .empty, .empty⟩

instance : Inhabited Metadata := ⟨empty⟩

/-- What a user made: all that cannot be found again by analysis. -/
def userRecords (m : Metadata) : Metadata :=
  let outgoing := m.outgoing.filter (fun _ auto => !auto)
  { dataVariables := m.dataVariables.filter (fun _ v => !v.auto)
    symbols := m.symbols.filter (fun _ s => !s.auto)
    types := m.types.filter (fun _ r => !r.auto)
    tagTypes := m.tagTypes
    tags := m.tags.filter (fun _ r => !r.auto)
    outgoing := outgoing
    incoming := Table.ofList (outgoing.entries.map (fun e => (e.1.flip, ())))
    strings := .empty
    comments := m.comments
    values := m.values.filter (fun _ v => !v.2) }

def variablesMentioning (m : Metadata) (name : String) : List Word :=
  (m.dataVariables.values.filter (·.type.mentions name)).map (·.address)

def fieldsMentioning (m : Metadata) (name : String) : List (String × Word) :=
  m.types.entries.flatMap fun (owner, record) =>
    match record.type with
    | .record _ members _ =>
      (members.filter (·.type.mentions name)).map (fun member => (owner, member.offset))
    | _ => []

def addReference (m : Metadata) (key : ReferenceKey) (auto : Bool) : Metadata :=
  { m with outgoing := m.outgoing.insert key auto, incoming := m.incoming.insert key.flip () }

def removeReference (m : Metadata) (key : ReferenceKey) : Metadata :=
  { m with outgoing := m.outgoing.erase key, incoming := m.incoming.erase key.flip }

end Metadata

end BinaryAtlas
