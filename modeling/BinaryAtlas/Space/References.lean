import BinaryAtlas.Space

/-!
References between addresses. Users add references to data; analysis adds those it finds in code
and replaces them when it looks again.
-/

set_option autoImplicit false

namespace BinaryAtlas

namespace Space

def addReference (source target : Word) : Op Bool := do
  let key : ReferenceKey := ⟨source, target, .data⟩
  if (← Op.read (·.metadata.outgoing.get? key)) = some false then pure false
  else
    editMetadata (·.addReference key false)
    record (.reference source target false true)
    pure true

def removeReference (source target : Word) : Op Bool := do
  let key : ReferenceKey := ⟨source, target, .data⟩
  if (← Op.read (·.metadata.outgoing.get? key)) ≠ some false then pure false
  else
    editMetadata (·.removeReference key)
    record (.reference source target true false)
    pure true

/-- Takes out the automatic references from some ranges and puts in others, which do not replace
what is there. -/
def replaceReferences (ranges : List AddressRange) (found : List ReferenceKey) : Op Unit :=
  editMetadata fun m =>
    let stale := ranges.flatMap fun r =>
      (m.outgoing.entries.filter fun e =>
        r.start ≤ e.1.near && e.1.near < r.stop && e.2).map (·.1)
    let m := stale.foldl (·.removeReference) m
    found.foldl (fun m key => m.addReference key ((m.outgoing.get? key).getD true)) m

def referencesTo (s : Space) (a length : Word) (kind : ReferenceKind) : List CrossReference :=
  let range := AddressRange.ofLength a (max length 1)
  (s.metadata.incoming.keys.filter fun k => range.contains k.near && k.kind == kind).map fun k =>
    ⟨k.far, k.near, k.kind, (s.metadata.outgoing.get? k.flip).getD true⟩

def referencesFrom (s : Space) (a length : Word) (kind : ReferenceKind) : List CrossReference :=
  let range := AddressRange.ofLength a (max length 1)
  (s.metadata.outgoing.entries.filter fun e =>
    range.contains e.1.near && e.1.kind == kind).map fun e =>
      ⟨e.1.near, e.1.far, e.1.kind, e.2⟩

end Space

end BinaryAtlas
