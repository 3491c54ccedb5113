/-
Paths of files: names separated by slashes, none of which need be text.
-/
namespace FrameGraph

/-- a name in a directory -/
abbrev Name := List UInt8

/-- where a file is found -/
structure Path where
  bytes : List UInt8
  deriving DecidableEq, Repr

namespace Path

def slash : UInt8 := 0x2F

/-- a path cut at its slashes -/
def names (p : Path) : List Name := p.bytes.splitOn slash

def isAbsolute (p : Path) : Bool := p.bytes.head? == some slash

/-- names that lead nowhere else: nothing between two slashes, and a single dot -/
def isIdle (n : Name) : Bool := n == [] || n == [0x2E]

def isParent (n : Name) : Bool := n == [0x2E, 0x2E]

/-- the first name and all others that lead somewhere; paths that agree in these are the same up to writing -/
def components (p : Path) : List Name :=
  match p.names with
  | [] => []
  | n :: ns => n :: ns.filter fun m => !isIdle m

end Path

end FrameGraph
