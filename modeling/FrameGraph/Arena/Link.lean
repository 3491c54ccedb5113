/-
Linking frames: what is attached goes into a slot of the target or becomes its last child.

What is attached may be in the arena already or be new; a new frame is allocated before anything is looked at. A link by
tag or by value looks at the attached frame first, for the key, and at the target last.
-/
import FrameGraph.Arena

namespace FrameGraph

/-- something to attach: a frame by its handle, or a new one by its label -/
inductive Attachment where
  | present (h : Handle)
  | detached (l : Label)
  deriving DecidableEq, Repr

/-- something that is attached to a frame, in one of the ways -/
inductive Link where
  | slot (key : String) (that : Attachment)
  | byTag (that : Attachment)
  | byValue (that : Attachment)
  | child (that : Attachment)
  deriving DecidableEq, Repr

/-- the link that attaches something this way -/
def Way.link : Way → Attachment → Link
  | .slot key, that => .slot key that
  | .byTag, that => .byTag that
  | .byValue, that => .byValue that
  | .child, that => .child that

namespace Arena

/-- the handle of an attachment, which is allocated if it is new -/
def settle (a : Arena) : Attachment → Arena × Handle
  | .present h => (a, h)
  | .detached l =>
    let new := a.next
    (a.alloc l, new)

/-- change a frame that has to be there -/
def update (a : Arena) (h : Handle) (change : Frame → Frame) : Step Unit :=
  if a.contains h then ⟨a.modify h change, .ok ()⟩ else ⟨a, .error (.dangling h)⟩

/-- the key that a link by tag or by value takes from the attached frame -/
def linkKeyed (a : Arena) (target that : Handle) (key : Label → String) : Step Unit :=
  match (a.frame? that).map fun f => key f.label with
  | some k => a.update target (·.setSlot k that)
  | none => ⟨a, .error (.dangling that)⟩

def link (a : Arena) (target : Handle) : Link → Step Unit
  | .slot key that =>
    let (a, h) := a.settle that
    a.update target (·.setSlot key h)
  | .byTag that =>
    let (a, h) := a.settle that
    a.linkKeyed target h (·.kind.tag)
  | .byValue that =>
    let (a, h) := a.settle that
    a.linkKeyed target h (·.value.raw)
  | .child that =>
    let (a, h) := a.settle that
    a.update target (·.addChild h)

/-- links to one target in order, up to the first that stops; the answer is the target -/
def linkAll (a : Arena) (target : Handle) : List Link → Step Handle
  | [] => ⟨a, .ok target⟩
  | l :: ls =>
    match a.link target l with
    | ⟨a, .ok ()⟩ => a.linkAll target ls
    | ⟨a, .error e⟩ => ⟨a, .error e⟩

end Arena

end FrameGraph
