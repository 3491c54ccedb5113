/-
Listings: everything reachable from a frame, one entry to a frame or to a further mention of it.

A listing goes depth first, slots in the order of their keys and then children; a frame that has been listed is only
mentioned again, with a mark, so that a listing ends on every graph. The work still to do stands on a stack: each step
either expands a frame for the first time, which leaves fewer frames to expand, or shortens the stack.
-/
import FrameGraph.Arena
import FrameGraph.HandleSet

namespace FrameGraph

/-- how a frame is reached from the one above it -/
inductive Place where
  | root
  | slot (key : String)
  | child (index : Nat)
  deriving DecidableEq, Repr

/-- what stands before the head of a frame -/
def Place.text : Place → String
  | .root => ""
  | .slot key => key ++ " = "
  | .child i => toString i ++ " : "

/-- slots of a frame in the order of their keys, each with its place -/
def Frame.slotLinks (f : Frame) : List (Place × Handle) := f.slots.entries.map fun e => (.slot e.1, e.2)

/-- children of a frame in their order, each with its place -/
def Frame.childLinks (f : Frame) : List (Place × Handle) := f.children.toList.zipIdx.map fun c => (.child c.2, c.1)

/-- a frame to be listed at some depth -/
structure Mention where
  place : Place
  handle : Handle
  depth : Nat
  deriving DecidableEq, Repr

/-- a line of a listing; `again` marks a frame that was listed before -/
structure Entry where
  mention : Mention
  again : Bool
  deriving DecidableEq, Repr

namespace Listing

/-- put links on the stack, the last of them first -/
def push (links : List (Place × Handle)) (depth : Nat) (todo : List Mention) : List Mention :=
  links.reverse.foldl (fun todo l => ⟨l.1, l.2, depth⟩ :: todo) todo

/-- put what stands one level below `f` on the stack, its slots over its children -/
def expand (f : Frame) (depth : Nat) (todo : List Mention) : List Mention :=
  push f.slotLinks (depth + 1) (push f.childLinks (depth + 1) todo)

/-- list what is to do, where the frames in `seen` were listed. A dangling handle is listed and has no links -/
def walk (a : Arena) (seen : HandleSet) (done : Array Entry) : List Mention → Array Entry
  | [] => done
  | m :: todo =>
    match _found : a.frame? m.handle with
    | none => walk a seen (done.push ⟨m, false⟩) todo
    | some f =>
      if _seen : seen.contains m.handle then walk a seen (done.push ⟨m, true⟩) todo
      else walk a (seen.insert m.handle) (done.push ⟨m, false⟩) (expand f m.depth todo)
termination_by todo => (seen.unseen a.size, todo.length)
decreasing_by
  · exact Prod.Lex.right _ (by simp)
  · exact Prod.Lex.right _ (by simp)
  · exact Prod.Lex.left _ _ (HandleSet.unseen_insert_lt (a.index_lt_of_frame? _found) (by simpa using _seen))

/-- all entries of the listing of `h` -/
def entries (a : Arena) (h : Handle) : List Entry :=
  (walk a .empty #[] [⟨.root, h, 0⟩]).toList

/-- the tabs that are written at once -/
def tabs : List Char := List.replicate 64 '\t'

/-- write `left` tabs behind `s`, no more than `tabs` at once -/
def indent (s : String) (left : Nat) : String :=
  if left = 0 then s
  else
    let n := min left tabs.length
    indent (s ++ String.ofList (tabs.take n)) (left - n)
termination_by left
decreasing_by
  simp only [tabs, List.length_replicate]
  omega

/-- what is written behind a frame that was listed before -/
def marker : String := " _/"

/-- a line: a newline, a tab for each level, and the head behind its place -/
def line (a : Arena) (e : Entry) : String :=
  indent "\n" e.mention.depth ++ e.mention.place.text ++ (a.head? e.mention.handle).getD ""
    ++ (if e.again then marker else "")

/-- the text of a listing; frames that are not there show nothing -/
def text (a : Arena) (h : Handle) : String := (entries a h).foldl (fun s e => s ++ line a e) ""

end Listing

namespace Arena

/-- the listing of `h`, which stops at the first handle that dangles -/
def listing (a : Arena) (h : Handle) : Except Stop String :=
  match (Listing.entries a h).find? fun e => !a.contains e.mention.handle with
  | some e => .error (.dangling e.mention.handle)
  | none => .ok (Listing.text a h)

end Arena

end FrameGraph
