import BinaryAtlas.Json

/-!
Numbers as they are read. A whole number that fits 64 bits, with or without a sign, stays as it is;
every other number becomes a binary one of 53 bits, and is kept as the decimal of the fewest digits
that reads back as it.
-/

set_option autoImplicit false

namespace BinaryAtlas

/-- A magnitude of at most 53 bits, `mantissa * 2 ^ exponent`; no exponent is below -1074. -/
structure Double where
  mantissa : Nat
  exponent : Int
  deriving DecidableEq, Inhabited

def scaled (base num den : Nat) (power : Int) : Nat × Nat :=
  (num * Nat.pow base power.toNat, den * Nat.pow base (-power).toNat)

/-- The whole number nearest to a quotient; a half goes to the even one. -/
def nearestWhole (num den : Nat) : Nat :=
  let low := num / den
  let twice := 2 * (num % den)
  if twice < den ∨ (twice = den ∧ low % 2 = 0) then low else low + 1

namespace Double

/-- The double nearest to a quotient. Its mantissa is the largest possible below `2 ^ 53`, unless
the exponent is the least. -/
def nearest (num den : Nat) : Double :=
  let guess : Int := Nat.log2 num - Nat.log2 den - 53
  let (n, d) := scaled 2 num den (-guess)
  let exponent := max (-1074) (if n / d < 0x20000000000000 then guess else guess + 1)
  let (n, d) := scaled 2 num den (-exponent)
  let mantissa := nearestWhole n d
  if mantissa = 0x20000000000000 then ⟨0x10000000000000, exponent + 1⟩ else ⟨mantissa, exponent⟩

def ratio (x : Double) : Nat × Nat := scaled 2 x.mantissa 1 x.exponent

def tenTo (power : Nat) : Double := nearest (Nat.pow 10 power) 1

def times (x y : Double) : Double :=
  nearest (x.ratio.1 * y.ratio.1) (x.ratio.2 * y.ratio.2)

def dividedBy (x y : Double) : Double :=
  nearest (x.ratio.1 * y.ratio.2) (x.ratio.2 * y.ratio.1)

/-- Whether the ratio `num / den` is nearer to the double than to its neighbours. Below a power of
two the neighbour is half as far away, and an end of the interval belongs to the even mantissa. -/
def holds (x : Double) (num den : Nat) : Bool :=
  let below := if x.mantissa = 0x10000000000000 ∧ -1074 < x.exponent then 1 else 2
  let (low, unit) := scaled 2 (4 * x.mantissa - below) 1 (x.exponent - 2)
  let (high, _) := scaled 2 (4 * x.mantissa + 2) 1 (x.exponent - 2)
  if x.mantissa % 2 = 0 then low * den ≤ num * unit ∧ num * unit ≤ high * den
  else low * den < num * unit ∧ num * unit < high * den

def digitsAt (x : Double) (power : Int) : Option Nat :=
  let (num, den) := scaled 10 x.ratio.1 x.ratio.2 (-power)
  let reads := fun digits => let (n, d) := scaled 10 digits 1 power; holds x n d
  let near := nearestWhole num den
  let far := 2 * (num / den) + 1 - near
  if reads near then some near else if reads far then some far else none

def shortestFrom (x : Double) : Nat → Int → Nat × Int
  | 0, power => (x.mantissa, power)
  | fuel + 1, power =>
    match x.digitsAt power with
    | some digits => (digits, power)
    | none => shortestFrom x fuel (power - 1)

/-- The fewest digits that read back, with their power of ten. The first power exceeds the number,
and a subnormal one stands at most 16 places lower than its exponent says. -/
def shortest (x : Double) : Nat × Int :=
  if x.mantissa = 0 then (0, 0)
  else shortestFrom x 40 ((x.exponent + 53) * 30103 / 100000 + 1)

end Double

namespace Numeral

/-- Takes in digits as long as the number they make fits 64 bits; gives also the digits left. -/
def gather : Nat → List Char → Nat × List Char
  | n, [] => (n, [])
  | n, c :: rest =>
    let more := 10 * n + (c.toNat - 48)
    if more < 0x10000000000000000 then gather more rest else (n, c :: rest)

/-- The double nearest to a number and a power of ten: the number times or over that power, each
step rounded. `none` when it exceeds every double. -/
def double? (significand : Nat) (exponent : Int) : Option Double :=
  let x := Double.nearest significand 1
  if significand = 0 ∨ exponent < -616 then some ⟨0, -1074⟩
  else if exponent < -308 then
    some ((x.dividedBy (.tenTo 308)).dividedBy (.tenTo (-(exponent + 308)).toNat))
  else if exponent < 0 then some (x.dividedBy (.tenTo (-exponent).toNat))
  else if exponent ≤ 308 then
    let y := x.times (.tenTo exponent.toNat)
    if y.exponent ≤ 971 then some y else none
  else none

def ofDouble (negative : Bool) (x : Double) : Numeral :=
  .decimal negative x.shortest.1 x.shortest.2

def isWhole (negative : Bool) (n : Nat) : Bool :=
  !negative || (0 < n && n ≤ 0x8000000000000000)

/-- The number that the digits before and behind the point and the exponent say. Digits before the
point that do not fit 64 bits count as places, and those behind it not at all. -/
def ofDigits? (negative : Bool) (whole fraction : List Char) (exponent : Option Int) :
    Option Numeral :=
  let (n, beyond) := gather 0 whole
  if beyond.isEmpty && fraction.isEmpty && exponent.isNone && isWhole negative n then
    some (.integer (if negative then -n else n))
  else
    let (significand, unread) := gather n fraction
    let places : Int := beyond.length - (fraction.length - unread.length : Nat)
    (double? significand (exponent.getD 0 + places)).map (ofDouble negative)

end Numeral

end BinaryAtlas
