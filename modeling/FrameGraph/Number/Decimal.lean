/-
Floating-point literals: an optional sign, then `inf`, `infinity` or `nan` in any case, or decimal digits with an
optional point and exponent and at least one digit before the exponent.
-/
import FrameGraph.Number.Binary64
import FrameGraph.Number.Digits

namespace FrameGraph.Binary64

/-- the exponent behind the mantissa, zero if nothing follows -/
def readExponent : List Char → Option Int
  | [] => some 0
  | c :: cs => if c = 'e' ∨ c = 'E' then Digits.readInteger cs else none

/-- digits, point, digits, exponent -/
def readDecimal (negative : Bool) (cs : List Char) : Option Binary64 :=
  let whole := cs.takeWhile Char.isDigit
  let behind := cs.dropWhile Char.isDigit
  let (fraction, rest) :=
    match behind with
    | '.' :: ds => (ds.takeWhile Char.isDigit, ds.dropWhile Char.isDigit)
    | _ => ([], behind)
  if whole.isEmpty && fraction.isEmpty then none
  else (readExponent rest).map fun e => ofDecimal negative (Digits.value (whole ++ fraction)) (e - fraction.length)

/-- a floating-point literal -/
def readStrict (cs : List Char) : Option Binary64 :=
  let (negative, rest) := Digits.splitSign cs
  let word := String.ofList (rest.map Char.toLower)
  if word = "inf" ∨ word = "infinity" then some (infinity negative)
  else if word = "nan" then some (nan negative)
  else readDecimal negative rest

/-- a floating-point literal; a point at the very end stands for the point and a zero -/
def read (cs : List Char) : Option Binary64 :=
  if cs.getLast? = some '.' then readStrict (cs ++ ['0']) else readStrict cs

end FrameGraph.Binary64
