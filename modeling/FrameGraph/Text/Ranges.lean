/-
Sets of characters given as ranges of code points, ends included.
-/
namespace FrameGraph.Text

/-- ranges of code points, each with its first and last member -/
abbrev Ranges := List (Nat × Nat)

/-- whether `c` lies in one of the ranges -/
def Ranges.contains (rs : Ranges) (c : Char) : Bool :=
  rs.any fun r => r.1 ≤ c.toNat && c.toNat ≤ r.2

end FrameGraph.Text
