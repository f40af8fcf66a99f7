import BinaryAtlas.Named
import BinaryAtlas.Table
import BinaryAtlas.Uuid
import BinaryAtlas.Word

/-!
Writing values as bytes and reading them back. Numbers take as few bytes as they need, and what is
repeated or may be missing says first how often it comes.
-/

set_option autoImplicit false

namespace BinaryAtlas

abbrev ByteReader (α : Type) : Type := StateT (List UInt8) Option α

structure Codec (α : Type) where
  write : α → List UInt8
  read : ByteReader α

namespace ByteReader

def byte : ByteReader UInt8
  | [] => none
  | b :: rest => some (b, rest)

def bytes (count : Nat) : ByteReader (List UInt8) := fun input =>
  if count ≤ input.length then some (input.take count, input.drop count) else none

def times {α : Type} (item : ByteReader α) : Nat → ByteReader (List α)
  | 0 => pure []
  | count + 1 => do
    let first ← item
    let others ← times item count
    pure (first :: others)

def little (count : Nat) : ByteReader Nat := do
  pure ((← bytes count).foldr (fun b n => n * 256 + b.toNat) 0)

def number (widest : Nat) : ByteReader Nat := do
  -- A number in its short form, which takes at most `widest` bytes behind the first one.
  let first ← byte
  if first < 251 then pure first.toNat
  else
    let width := if first = 251 then 2 else if first = 252 then 4 else if first = 253 then 8 else 16
    if widest < width || first = 255 then failure else little width

end ByteReader

namespace Codec

/-- Reading takes back what was written, and leaves what comes behind. -/
def IsFaithful {α : Type} (c : Codec α) : Prop :=
  ∀ (a : α) (rest : List UInt8), c.read (c.write a ++ rest) = some (a, rest)

def byte : Codec UInt8 := ⟨fun b => [b], ByteReader.byte⟩

def littleBytes : Nat → Nat → List UInt8
  | 0, _ => []
  | count + 1, n => n.toUInt8 :: littleBytes count (n / 256)

def numberBytes (n : Nat) : List UInt8 :=
  if n < 251 then [n.toUInt8]
  else if n < 0x10000 then 251 :: littleBytes 2 n
  else if n < 0x100000000 then 252 :: littleBytes 4 n
  else 253 :: littleBytes 8 n

def choice : Codec Nat := ⟨numberBytes, ByteReader.number 4⟩

def nat : Codec Nat := ⟨numberBytes, ByteReader.number 8⟩

def word : Codec Word where
  write w := numberBytes w.toNat
  read := do pure (.ofNat (← ByteReader.number 8))

def int : Codec Int where
  -- Numbers near zero come first, whatever their sign.
  write i := numberBytes (if 0 ≤ i then 2 * i.natAbs else 2 * i.natAbs - 1)
  read := do
    let n ← ByteReader.number 8
    pure (if n % 2 = 0 then (n / 2 : Nat) else -((n / 2 : Nat) + 1 : Int))

def bool : Codec Bool where
  write b := [b.toUInt8]
  read := do
    match ← ByteReader.byte with
    | 0 => pure false
    | 1 => pure true
    | _ => failure

def pair {α β : Type} (first : Codec α) (second : Codec β) : Codec (α × β) where
  write p := first.write p.1 ++ second.write p.2
  read := do
    let a ← first.read
    let b ← second.read
    pure (a, b)

/-- Values that stand for others; reading fails where there is none to stand for. -/
def partly {α β : Type} (forth : α → β) (back? : β → Option α) (c : Codec β) : Codec α where
  write a := c.write (forth a)
  read := do
    match back? (← c.read) with
    | some a => pure a
    | none => failure

def via {α β : Type} (forth : α → β) (back : β → α) (c : Codec β) : Codec α :=
  partly forth (some <| back ·) c

def option {α : Type} (c : Codec α) : Codec (Option α) where
  write
    | none => [0]
    | some a => 1 :: c.write a
  read := do
    match ← ByteReader.byte with
    | 0 => pure none
    | 1 => do pure (some (← c.read))
    | _ => failure

def list {α : Type} (c : Codec α) : Codec (List α) where
  write l := numberBytes l.length ++ l.flatMap c.write
  read := do
    let count ← ByteReader.number 8
    ByteReader.times c.read count

def text : Codec String :=
  partly (fun s => s.toUTF8.toList) (fun bytes => String.fromUTF8? ⟨bytes.toArray⟩) (list byte)

def table {K V : Type} [Ord K] [Std.TransOrd K] [Std.LawfulEqOrd K] (key : Codec K)
    (value : Codec V) : Codec (Table K V) :=
  -- The entries in order; of several with one key the last counts.
  via Table.entries Table.ofList (list (pair key value))

def named {α : Type} [Named α] [DecidableEq α] : Codec α :=
  partly (fun a => (Named.all : List α).idxOf a) (fun i => (Named.all : List α)[i]?) choice

def uuid : Codec Uuid :=
  partly (fun id => (littleBytes 16 id.value).reverse)
    (fun bytes =>
      if bytes.length = 16 then some ⟨bytes.foldl (fun n b => n * 256 + b.toNat) 0⟩ else none)
    (list byte)

end Codec

end BinaryAtlas
