/-
Handles: the names that frames have in an arena, numbered in the order of allocation.
-/
namespace FrameGraph

structure Handle where
  index : Nat
  deriving DecidableEq, Repr, Inhabited

namespace Handle

/-- `@` and the index in lower-case hexadecimal -/
def text (h : Handle) : String := "@" ++ String.ofList (Nat.toDigits 16 h.index)

/-- the handle `n` places further on -/
def shift (n : Nat) (h : Handle) : Handle := ⟨n + h.index⟩

end Handle

end FrameGraph
