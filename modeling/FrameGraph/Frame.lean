/-
Frames: a label, named slots and children in order. Slots and children are handles, so that a frame can stand below
several others and below itself.
-/
import FrameGraph.Slots
import FrameGraph.Value

namespace FrameGraph

/-- `identity` is the handle that the frame's value was first stored under; a copy of the frame keeps it -/
structure Frame where
  label : Label
  slots : Slots
  children : Array Handle
  identity : Handle
  deriving DecidableEq, Repr

namespace Frame

/-- a frame without slots and children -/
def ofLabel (l : Label) (identity : Handle) : Frame := ⟨l, .empty, #[], identity⟩

/-- equality of values; native functions cannot be compared by what they do, so copies of one are equal and no others -/
def sameValue (f g : Frame) : Bool :=
  match f.label.value, g.label.value with
  | .text s, .text t => s == t
  | .number m, .number n => m.equal n
  | .native _ _, .native _ _ => f.identity == g.identity
  | _, _ => false

def setSlot (f : Frame) (key : String) (h : Handle) : Frame := { f with slots := f.slots.insert key h }

def addChild (f : Frame) (h : Handle) : Frame := { f with children := f.children.push h }

end Frame

end FrameGraph
