/-
Arenas: all frames of a graph, each under the handle that counts the allocations before it. No frame is ever removed.

A handle from elsewhere may name no frame; it dangles, and an operation that has to look at its frame stops there.
-/
import FrameGraph.Frame

namespace FrameGraph

structure Arena where
  frames : Array Frame
  deriving DecidableEq, Repr

/-- why an operation stops: an error of its own, a handle that names no frame, or the limit on its depth -/
inductive Stop where
  | failed (e : EvalError)
  | dangling (h : Handle)
  | unfinished
  deriving DecidableEq, Repr

/-- what an operation answers and the arena that it leaves; one that stops midway leaves what it did before -/
structure Step (α : Type) where
  arena : Arena
  answer : Except Stop α

/-- go on with what a step answers, if it answers anything -/
def Step.bind {α β : Type} (s : Step α) (next : Arena → α → Step β) : Step β :=
  match s with
  | ⟨a, .ok x⟩ => next a x
  | ⟨a, .error e⟩ => ⟨a, .error e⟩

namespace Arena

def empty : Arena := ⟨#[]⟩

instance : Inhabited Arena := ⟨empty⟩

def size (a : Arena) : Nat := a.frames.size

def isEmpty (a : Arena) : Bool := a.frames.isEmpty

def frame? (a : Arena) (h : Handle) : Option Frame := a.frames[h.index]?

def contains (a : Arena) (h : Handle) : Bool := h.index < a.size

/-- the handle of the next allocation -/
def next (a : Arena) : Handle := ⟨a.size⟩

/-- a new frame, under the handle `a.next` -/
def alloc (a : Arena) (l : Label) : Arena := ⟨a.frames.push (.ofLabel l a.next)⟩

/-- a copy of a frame under the handle `a.next`: the same slots, children and identity -/
def copy (a : Arena) (h : Handle) : Step Handle :=
  match a.frame? h with
  | some f =>
    let new := a.next
    ⟨⟨a.frames.push f⟩, .ok new⟩
  | none => ⟨a, .error (.dangling h)⟩

/-- change the frame under `h`, if there is one -/
def modify (a : Arena) (h : Handle) (change : Frame → Frame) : Arena := ⟨a.frames.modify h.index change⟩

/-- `<tag:value> @handle` -/
def head? (a : Arena) (h : Handle) : Option String :=
  (a.frame? h).map fun f => f.label.text ++ " " ++ h.text

/-- look at the frame under `h` -/
def withFrame {α : Type} (a : Arena) (h : Handle) (look : Frame → Except Stop α) : Except Stop α :=
  match a.frame? h with
  | some f => look f
  | none => .error (.dangling h)

/-- the handle in a slot, nothing if the frame has no such slot -/
def slot (a : Arena) (h : Handle) (key : String) : Except Stop (Option Handle) :=
  a.withFrame h fun f => .ok (f.slots.get? key)

/-- the handle in a slot that has to be there -/
def get (a : Arena) (h : Handle) (key : String) : Except Stop Handle :=
  a.withFrame h fun f =>
    match f.slots.get? key with
    | some s => .ok s
    | none => .error (.failed (.lookup ⟨key, f.label.text ++ " " ++ h.text⟩))

theorem size_alloc (a : Arena) (l : Label) : (a.alloc l).size = a.size + 1 := by simp [size, alloc]

theorem size_modify (a : Arena) (h : Handle) (change : Frame → Frame) : (a.modify h change).size = a.size := by
  simp [size, modify]

theorem frame?_modify_self (a : Arena) (h : Handle) (change : Frame → Frame) :
    (a.modify h change).frame? h = (a.frame? h).map change := by
  simp [frame?, modify, Array.getElem?_modify]

theorem frame?_modify_of_ne (a : Arena) {h other : Handle} (change : Frame → Frame) (hne : other ≠ h) :
    (a.modify h change).frame? other = a.frame? other := by
  have hi : h.index ≠ other.index := fun heq => hne (by cases h; cases other; simp_all)
  simp [frame?, modify, Array.getElem?_modify, hi]

theorem index_lt_of_frame? (a : Arena) {h : Handle} {f : Frame} (hf : a.frame? h = some f) : h.index < a.size :=
  (Array.getElem?_eq_some_iff.1 hf).1

theorem contains_eq_isSome (a : Arena) (h : Handle) : a.contains h = (a.frame? h).isSome := by
  rw [Bool.eq_iff_iff, contains, decide_eq_true_iff]
  simp [frame?, size]

end Arena

end FrameGraph
