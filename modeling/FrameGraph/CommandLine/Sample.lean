/-
A sample graph: a frame with a child and slots, and an environment that is its own slot and holds a native function,
which gives the environment back.
-/
import FrameGraph.Arena.Evaluate
import FrameGraph.Listing

namespace FrameGraph.Sample

def label (k : Kind) (s : String) : Label := ⟨k, .text s⟩

/-- the frame, in an empty arena -/
def tree : Step Handle :=
  let a := Arena.empty
  (a.alloc (label .frame "Hello")).linkAll a.next
    [.child (.detached (label .frame "World")), .byTag (.detached (label .frame "left")),
      .byValue (.detached (label .frame "right"))]

/-- the environment, behind what is in the arena -/
def environment (a : Arena) : Step Handle :=
  (a.alloc (label .env "global")).linkAll a.next
    [.byTag (.detached (label (.ofTag "web") "flask")), .byValue (.detached ⟨.fn, .native "this" .environment⟩),
      .slot "global" (.present a.next)]

/-- what the function of the environment gives -/
def result (a : Arena) (env : Handle) : Step Handle :=
  match a.get env "this" with
  | .ok f => a.evaluate 1 f env
  | .error e => ⟨a, .error e⟩

/-- the listings of the frame and of the function's result, each with a newline -/
def text : Except Stop String := do
  let frames := tree
  let first ← frames.arena.listing (← frames.answer)
  let env := environment frames.arena
  let given := result env.arena (← env.answer)
  let second ← given.arena.listing (← given.answer)
  return first ++ "\n" ++ second ++ "\n"

end FrameGraph.Sample
