/-
Floating-point numbers as text: the fewest digits that read back as the same number, and of those the nearest.

The numbers that read back as `x` fill an interval half way to its neighbours on both sides. On each decimal grid only
the two neighbours of `x` itself can be its shortest text; `shortest` goes from coarse grids to fine ones until one of
them lies in the interval. On the grid of `10 ^ -places` every number lies exactly.
-/
import FrameGraph.Number.Binary64

namespace FrameGraph.Binary64

/-- a decimal `digits · 10 ^ exponent` -/
structure Scientific where
  digits : Nat
  exponent : Int
  deriving DecidableEq, Repr

/-- quarters of the last place of `x` between `x` and the lower end of its interval; below a power of two the
neighbour is only half as far -/
def lowerGap (x : Binary64) : Nat := if x.significand = Nat.pow 2 52 ∧ x.scale ≠ 0 then 1 else 2

/-- whether `point`, in quarters of a unit, lies in the interval of `x`, both multiplied by `factor`; the ends belong to
the number with an even significand -/
def roundsTo (x : Binary64) (factor point : Nat) : Bool :=
  let low := (4 * x.significand - x.lowerGap) * Nat.pow 2 x.scale * factor
  let high := (4 * x.significand + 2) * Nat.pow 2 x.scale * factor
  if x.significand % 2 = 0 then low ≤ point && point ≤ high else low < point && point < high

/-- the neighbour of `x` on the grid of `10 ^ k` that reads back as `x`: of two the nearer, half way the upper one -/
def onGrid (x : Binary64) (k : Int) : Option Nat :=
  let factor := Nat.pow 10 (-k).toNat
  let step := Nat.pow 2 (places + 2) * Nat.pow 10 k.toNat
  let value := 4 * x.units * factor
  let below := value / step
  let belowFits := x.roundsTo factor (below * step)
  let aboveFits := x.roundsTo factor ((below + 1) * step)
  if belowFits && (!aboveFits || 2 * (value - below * step) < step) then some below
  else if aboveFits then some (below + 1)
  else none

/-- the decimal that is `x` itself -/
def exact (x : Binary64) : Scientific := ⟨x.units * Nat.pow 5 places, -places⟩

/-- the first hit on the grids of `10 ^ k`, `10 ^ (k - 1)` and on, `n` of them -/
def searchGrids (x : Binary64) (k : Int) (n : Nat) : Option Scientific :=
  (List.range n).findSome? fun i : Nat => (x.onGrid (k - i)).map fun digits => ⟨digits, k - i⟩

/-- a power of ten above the interval of `x`: 0.30103 is a little more than the logarithm of two -/
def topGrid (x : Binary64) : Int := ((x.units.log2 : Int) + 1 - places) * 30103 / 100000 + 2

/-- shortest decimal of a finite number other than zero -/
def shortest (x : Binary64) : Scientific := (x.searchGrids x.topGrid (x.topGrid + places).toNat).getD x.exact

/-- places of the point for which the digits are written out; other decimals have an exponent -/
def isPositional (leading : Int) : Bool := -4 ≤ leading && leading ≤ 15

/-- text of a decimal: at least one digit on either side of a point, or one digit before the point and an exponent -/
def Scientific.text (d : Scientific) : List Char :=
  let ds := Nat.toDigits 10 d.digits
  let leading := d.exponent + ds.length - 1
  if isPositional leading then
    if 0 ≤ d.exponent then ds ++ List.replicate d.exponent.toNat '0' ++ ['.', '0']
    else if 0 ≤ leading then ds.take (leading.toNat + 1) ++ ['.'] ++ ds.drop (leading.toNat + 1)
    else ['0', '.'] ++ List.replicate (-leading - 1).toNat '0' ++ ds
  else
    let mantissa := if ds.length ≤ 1 then ds else ds.take 1 ++ ['.'] ++ ds.drop 1
    let sign := if leading < 0 then ['-'] else []
    mantissa ++ ['e'] ++ sign ++ Nat.toDigits 10 leading.natAbs

/-- text of a number: shows a point or an exponent wherever it is finite -/
def text (x : Binary64) : String :=
  if x.isNaN then "NaN"
  else
    let sign := if x.isNegative then ['-'] else []
    let magnitude :=
      if x.isInfinite then ['i', 'n', 'f']
      else if x.isZero then ['0', '.', '0']
      else x.shortest.text
    String.ofList (sign ++ magnitude)

end FrameGraph.Binary64
