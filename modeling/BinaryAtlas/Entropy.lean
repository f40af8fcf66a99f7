/-!
How evenly bytes are spread, in bits a byte.
-/

set_option autoImplicit false

namespace BinaryAtlas

structure Histogram where
  counts : List Nat
  total : Nat

namespace Histogram

def ofBytes (bytes : List UInt8) : Histogram :=
  ⟨(List.range 256).map (fun n => bytes.count n.toUInt8), bytes.length⟩

def add (h : Histogram) (b : UInt8) : Histogram :=
  ⟨h.counts.modify b.toNat (· + 1), h.total + 1⟩

/-- The sum of `-p * log2 p` over the values that occurred, `p` being the share of each. -/
def entropy (h : Histogram) : Float :=
  if h.total = 0 then 0
  else
    (h.counts.filter (· ≠ 0)).foldl
      (fun sum count =>
        let p := Float.ofNat count / Float.ofNat h.total
        sum + -p * p.log2)
      0

end Histogram

namespace Entropy

def ofBytes (bytes : List UInt8) : Float := (Histogram.ofBytes bytes).entropy

def normalized (bytes : List UInt8) : Float32 := (ofBytes bytes / 8).toFloat32

def millionths (x : Float) : Int := (x * 1000000).round.toInt64.toInt

end Entropy

end BinaryAtlas
