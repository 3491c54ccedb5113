/-
Plain decimal numerals: figures only, with a sign in front where one is allowed.
-/
namespace FrameGraph.Digits

/-- value of a string of figures -/
def value (cs : List Char) : Nat := cs.foldl (fun n c => n * 10 + (c.toNat - '0'.toNat)) 0

/-- an optional sign: whether it is a minus, and what follows -/
def splitSign : List Char → Bool × List Char
  | '-' :: cs => (true, cs)
  | '+' :: cs => (false, cs)
  | cs => (false, cs)

/-- an optional sign and at least one figure, and nothing else -/
def readInteger (cs : List Char) : Option Int :=
  let (negative, ds) := splitSign cs
  if ds.isEmpty || !ds.all Char.isDigit then none
  else some (if negative then -(value ds : Int) else value ds)

end FrameGraph.Digits
