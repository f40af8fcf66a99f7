/-!
The BLAKE3 hash of some bytes: 1024 bytes at a time are hashed block by block, and the results are
hashed two by two as a binary tree.
-/

set_option autoImplicit false

namespace BinaryAtlas

namespace Blake3

abbrev Key := Vector UInt32 8

abbrev Block := Vector UInt32 16

def initial : Key :=
  #v[0x6a09e667, 0xbb67ae85, 0x3c6ef372, 0xa54ff53a, 0x510e527f, 0x9b05688c, 0x1f83d9ab, 0x5be0cd19]

def permutation : Vector (Fin 16) 16 :=
  #v[2, 6, 3, 10, 7, 0, 4, 13, 1, 11, 12, 5, 9, 14, 15, 8]

def permute (m : Block) : Block := permutation.map fun i => m[i]

def rotateRight (x n : UInt32) : UInt32 := (x >>> n) ||| (x <<< (32 - n))

def mix (s : Block) (ia ib ic id : Fin 16) (x y : UInt32) : Block :=
  let a := s[ia] + s[ib] + x
  let d := rotateRight (s[id] ^^^ a) 16
  let c := s[ic] + d
  let b := rotateRight (s[ib] ^^^ c) 12
  let a := a + b + y
  let d := rotateRight (d ^^^ a) 8
  let c := c + d
  let b := rotateRight (b ^^^ c) 7
  (((s.set ia a).set ib b).set ic c).set id d

def round (s m : Block) : Block :=
  let s := mix s 0 4 8 12 m[0] m[1]
  let s := mix s 1 5 9 13 m[2] m[3]
  let s := mix s 2 6 10 14 m[4] m[5]
  let s := mix s 3 7 11 15 m[6] m[7]
  let s := mix s 0 5 10 15 m[8] m[9]
  let s := mix s 1 6 11 12 m[10] m[11]
  let s := mix s 2 7 8 13 m[12] m[13]
  mix s 3 4 9 14 m[14] m[15]

def rounds : Nat → Block → Block → Block
  | 0, s, _ => s
  | n + 1, s, m => rounds n (round s m) (permute m)

def chunkStart : UInt32 := 1
def chunkEnd : UInt32 := 2
def parent : UInt32 := 4
def root : UInt32 := 8

/-- What is left to compress for one node of the tree. -/
structure Node where
  key : Key
  block : Block
  counter : Nat
  length : Nat
  flags : UInt32

namespace Node

def compress (n : Node) (flags : UInt32) : Key :=
  let low := UInt32.ofNat n.counter
  let high := UInt32.ofNat (n.counter / 0x100000000)
  let tail : Key :=
    #v[initial[0], initial[1], initial[2], initial[3], low, high, UInt32.ofNat n.length, flags]
  let s := rounds 7 (n.key ++ tail) n.block
  Vector.ofFn fun i : Fin 8 => s[i] ^^^ s[i.val + 8]

def chain (n : Node) : Key := n.compress n.flags

def final (n : Node) : Key := n.compress (n.flags ||| root)

end Node

def word (bytes : List UInt8) (i : Nat) : UInt32 :=
  -- Four bytes as a word, the low one first; bytes that are missing are zero.
  let byte := fun k => (bytes.getD (4 * i + k) 0).toUInt32
  byte 0 ||| (byte 1 <<< 8) ||| (byte 2 <<< 16) ||| (byte 3 <<< 24)

def blockOf (bytes : List UInt8) : Block := Vector.ofFn fun i => word bytes i

/-- The blocks of a chunk from some block on; only the last one is left to compress. -/
def chunkFrom (counter : Nat) (key : Key) (first : UInt32) (bytes : List UInt8) : Node :=
  if bytes.length ≤ 64 then
    ⟨key, blockOf bytes, counter, bytes.length, first ||| chunkEnd⟩
  else
    let node : Node := ⟨key, blockOf (bytes.take 64), counter, 64, first⟩
    chunkFrom counter node.chain 0 (bytes.drop 64)
termination_by bytes.length
decreasing_by rw [List.length_drop]; omega

-- How many bytes go to the left of more than one chunk: the largest power of two of chunks that
-- leaves something for the right.
def leftLength (length : Nat) : Nat := 1024 <<< ((length - 1) / 1024).log2

theorem leftLength_pos (length : Nat) : 0 < leftLength length := by
  have := Nat.two_pow_pos ((length - 1) / 1024).log2
  rw [leftLength, Nat.shiftLeft_eq]
  omega

theorem leftLength_lt {length : Nat} (h : 1024 < length) : leftLength length < length := by
  have hn : (length - 1) / 1024 ≠ 0 := by omega
  have := Nat.log2_self_le hn
  rw [leftLength, Nat.shiftLeft_eq]
  omega

def tree (index : Nat) (bytes : List UInt8) : Node :=
  if bytes.length ≤ 1024 then chunkFrom index initial chunkStart bytes
  else
    let n := leftLength bytes.length
    let left := tree index (bytes.take n)
    let right := tree (index + n / 1024) (bytes.drop n)
    ⟨initial, left.chain ++ right.chain, 0, 64, parent⟩
termination_by bytes.length
decreasing_by
  · have := leftLength_lt (show 1024 < bytes.length by omega)
    rw [List.length_take]
    omega
  · have := leftLength_pos bytes.length
    rw [List.length_drop]
    omega

def wordBytes (w : UInt32) : List UInt8 :=
  [w.toUInt8, (w >>> 8).toUInt8, (w >>> 16).toUInt8, (w >>> 24).toUInt8]

def hash (bytes : List UInt8) : List UInt8 := (tree 0 bytes).final.toList.flatMap wordBytes

end Blake3

end BinaryAtlas
