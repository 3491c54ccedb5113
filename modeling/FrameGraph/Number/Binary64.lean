/-
Floating-point numbers of 64 bits as their bit patterns, and correct rounding in exact integer arithmetic.

A finite number is `significand · 2 ^ scale` in units of `2 ^ -places`, so its magnitude is a natural number. `ofRatio`
rounds a ratio to the nearest number, half way to the even significand, and to infinity past the largest.
-/
namespace FrameGraph

/-- a number by its bits: sign, eleven bits of exponent, fifty-two of fraction -/
structure Binary64 where
  bits : UInt64
  deriving DecidableEq, Repr, Inhabited

namespace Binary64

/-- bits without the sign -/
def magnitudeBits (x : Binary64) : Nat := x.bits.toNat % Nat.pow 2 63

def isNegative (x : Binary64) : Bool := Nat.pow 2 63 ≤ x.bits.toNat

/-- bits of infinity; magnitudes above them are no numbers -/
def infinityBits : Nat := 2047 * Nat.pow 2 52

def isNaN (x : Binary64) : Bool := infinityBits < x.magnitudeBits

def isInfinite (x : Binary64) : Bool := x.magnitudeBits == infinityBits

def isZero (x : Binary64) : Bool := x.magnitudeBits == 0

/-- power of two that the significand is counted in, above the least one -/
def scale (x : Binary64) : Nat := x.magnitudeBits / Nat.pow 2 52 - 1

/-- significand with its leading bit, which subnormal numbers lack -/
def significand (x : Binary64) : Nat := x.magnitudeBits - x.scale * Nat.pow 2 52

/-- binary places of the least number other than zero; a proof that unfolds a power of this size does not come back -/
@[irreducible] def places : Nat := 1074

/-- magnitude of a finite number in units of `2 ^ -places` -/
def units (x : Binary64) : Nat := x.significand * Nat.pow 2 x.scale

/-- equality of numbers: the two zeros are equal, and what is no number equals nothing -/
def equal (x y : Binary64) : Bool :=
  !x.isNaN && !y.isNaN && (x == y || x.isZero && y.isZero)

/-- a sign and the bits of a magnitude -/
def ofMagnitude (negative : Bool) (m : Nat) : Binary64 :=
  ⟨UInt64.ofNat (if negative then Nat.pow 2 63 + m else m)⟩

def zero (negative : Bool) : Binary64 := ofMagnitude negative 0

def infinity (negative : Bool) : Binary64 := ofMagnitude negative infinityBits

def nan (negative : Bool) : Binary64 := ofMagnitude negative (infinityBits + Nat.pow 2 51)

/-- the integer nearest to `num / den`, the even one half way -/
def roundHalfEven (num den : Nat) : Nat :=
  let whole := num / den
  let rest := num % den
  if 2 * rest < den then whole
  else if den < 2 * rest then whole + 1
  else whole + whole % 2

/-- magnitude bits of the number nearest to `num / den`; a significand that rounds up to the next power of two carries
into the exponent, which is what the layout of the bits makes of the sum -/
def nearestBits (num den : Nat) : Nat :=
  let n := num * Nat.pow 2 places
  let scale := (n / den).log2 - 52
  min infinityBits (scale * Nat.pow 2 52 + roundHalfEven n (den * Nat.pow 2 scale))

/-- the number nearest to `num / den` -/
def ofRatio (negative : Bool) (num den : Nat) : Binary64 := ofMagnitude negative (nearestBits num den)

/-- the number nearest to `digits · 10 ^ exponent`; exponents out of all range are settled without the power -/
def ofDecimal (negative : Bool) (digits : Nat) (exponent : Int) : Binary64 :=
  if digits = 0 then zero negative
  else if 310 < exponent then infinity negative
  else if exponent + (digits.log2 / 3 + 1 : Nat) < -330 then zero negative
  else if 0 ≤ exponent then ofRatio negative (digits * Nat.pow 10 exponent.toNat) 1
  else ofRatio negative digits (Nat.pow 10 (-exponent).toNat)

end Binary64

end FrameGraph
