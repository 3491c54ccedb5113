/-
Settings for reading.
-/
namespace FrameGraph

/-- `quote` marks the expression that follows it as quoted; lists and quotes nest up to `maxDepth` deep -/
structure Settings where
  quote : Char
  maxDepth : Nat
  deriving DecidableEq, Repr

namespace Settings

/-- a grave accent, and five hundred levels -/
def default : Settings := ⟨'\x60', 500⟩

end Settings

end FrameGraph
