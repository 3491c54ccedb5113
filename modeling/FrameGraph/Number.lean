/-
Numbers that frames carry: integers of any size and floating-point numbers.
-/
import FrameGraph.Number.Decimal
import FrameGraph.Number.Radix
import FrameGraph.Number.Shortest

namespace FrameGraph

inductive Number where
  | integer (n : Int)
  | float (x : Binary64)
  deriving DecidableEq, Repr

namespace Number

/-- text that tells the two apart: only a floating-point number shows a point or an exponent -/
def text : Number → String
  | .integer n => decimalText n
  | .float x => x.text

def integer? : Number → Option Int
  | .integer n => some n
  | .float _ => none

def float? : Number → Option Binary64
  | .integer _ => none
  | .float x => some x

/-- an integer never equals a floating-point number -/
def equal : Number → Number → Bool
  | .integer m, .integer n => m == n
  | .float x, .float y => x.equal y
  | _, _ => false

end Number

end FrameGraph
