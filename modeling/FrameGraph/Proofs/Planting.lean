/-
What the reader does to an arena: it puts frames behind those that are there, and nothing else.

`stackFrames n stack` are the frames that open constructs take from the handle `n` on, with the elements that lists have
so far, and `containers n stack` the reader's own stack of handles for them. An arena with these frames behind its own,
together with this stack, is where the reader stands when the machine over trees stands at `stack`.

Results:
- `take_realizes`: one token keeps the two in step.
- `next_eq_parse`: a call of the reader answers what the machine answers, whatever arena it works on; an expression stands
  behind the frames that were there, at the handle of the next allocation, and a failed call leaves the frames of the
  constructs that were open.
-/
import FrameGraph.Proofs.Grammar

namespace FrameGraph.Grammar

open FrameGraph.Expr

/-! ## Frames of open constructs -/

/-- the frames of an open construct whose own frame has the handle `n` -/
def openedFrames (n : Nat) : Opened → List Frame
  | .list _ done => ⟨Reader.listLabel, .empty, (handles (n + 1) done).toArray, ⟨n⟩⟩ :: framesAll (n + 1) done
  | .quote _ op => [.ofLabel op ⟨n⟩]

/-- the frames of a stack that is laid out from `n` on, outermost construct first -/
def stackFrames (n : Nat) : List Opened → List Frame
  | [] => []
  | o :: below => stackFrames n below ++ openedFrames (n + (stackFrames n below).length) o

/-- an open construct as the reader holds it -/
def container (n : Nat) : Opened → Container
  | .list p _ => .list ⟨n⟩ p
  | .quote p op => .quote ⟨n⟩ p op.value.raw

/-- the reader's stack for constructs that are laid out from `n` on -/
def containers (n : Nat) : List Opened → List Container
  | [] => []
  | o :: below => container (n + (stackFrames n below).length) o :: containers n below

theorem length_containers (n : Nat) (stack : List Opened) : (containers n stack).length = stack.length := by
  induction stack with
  | nil => rfl
  | cons o below ih => simp [containers, ih]

theorem unfinished_container (n : Nat) (o : Opened) : (container n o).unfinished = o.unfinished := by
  cases o <;> rfl

/-! ## One token -/

/-- the arena in which the constructs of `stack` are open behind the frames of `a` -/
def opened (a : Arena) (stack : List Opened) : Arena := a.extend (stackFrames a.size stack)

/-- the arena and the reader's progress at a stage -/
def Stage.realize (a : Arena) : Stage → Arena × Progress
  | .inside stack => (opened a stack, .inside (containers a.size stack))
  | .complete e => (a.plant e, .complete a.next)

/-- what becomes of a token in the arena: a refused one leaves everything as it is -/
def realize (a : Arena) (stack : List Opened) : Except (Located ReadError) Stage → Arena × Progress
  | .ok g => g.realize a
  | .error err => (opened a stack, .failed err)

/-- a finished expression whose frames stand last is handed on by changing only the frames it is handed to -/
theorem hand_realizes (a : Arena) (stack : List Opened) (e : Expr) :
    Reader.hand (a.extend (stackFrames a.size stack ++ e.frames (a.size + (stackFrames a.size stack).length)))
      ⟨a.size + (stackFrames a.size stack).length⟩ (containers a.size stack) = (give e stack).realize a := by
  induction stack generalizing e with
  | nil => rfl
  | cons o below ih =>
    cases o with
    | list p done =>
      simp only [stackFrames, openedFrames, containers, container, Reader.hand, give, Stage.realize, opened,
        List.append_assoc, List.cons_append]
      rw [Arena.modify_extend]
      simp [Frame.addChild, handles_append, framesAll_append, length_framesAll, framesAll, handles, Nat.add_assoc,
        Nat.add_comm, Nat.add_left_comm]
    | quote p op =>
      simp only [stackFrames, openedFrames, containers, container, Reader.hand, give, List.append_assoc,
        List.cons_append]
      rw [Arena.modify_extend]
      have := ih (.quote op e)
      simp only [frames] at this
      rw [← this]
      simp [Frame.addChild, Frame.ofLabel, Nat.add_assoc]

theorem alloc_opened (a : Arena) (stack : List Opened) (l : Label) :
    (opened a stack).alloc l = a.extend (stackFrames a.size stack ++ [.ofLabel l (opened a stack).next]) := by
  simp [opened, Arena.alloc_extend, Arena.next_eq]

/-- opening a construct allocates its frame, unless the limit is reached -/
theorem deepen_realizes (d : Nat) (a : Arena) (stack : List Opened) (o : Opened) (l : Label) (p : Position)
    (ho : openedFrames (opened a stack).size o = [.ofLabel l (opened a stack).next]) :
    (if d ≤ (containers a.size stack).length then (opened a stack, .failed ⟨.structural .nestingTooDeep, p⟩)
      else ((opened a stack).alloc l, .inside (container (opened a stack).size o :: containers a.size stack))) =
      realize a stack (deepen d stack o p) := by
  rw [length_containers, deepen]
  split_ifs with hd
  · rfl
  · rw [alloc_opened, ← ho]
    simp [realize, Stage.realize, opened, stackFrames, containers]

theorem take_realizes (d : Nat) (a : Arena) (stack : List Opened) (t : Located Token) :
    Reader.take d (opened a stack) (containers a.size stack) t = realize a stack (feed d stack t) := by
  cases ht : t.item with
  | leaf l =>
    have := hand_realizes a stack (.leaf l)
    simp only [Reader.take, feed, ht, realize, alloc_opened, ← this, frames]
    simp [opened, Arena.next_eq]
  | closing =>
    rcases stack with _ | ⟨⟨p, done⟩ | ⟨p, op⟩, below⟩
    · simp [Reader.take, feed, ht, containers, realize]
    · have := hand_realizes a below (.list done)
      simp only [Reader.take, feed, ht, containers, container, realize, ← this, frames]
      simp [opened, stackFrames, openedFrames]
    · simp [Reader.take, feed, ht, containers, container, realize]
  | quote op =>
    simp only [Reader.take, feed, ht]
    exact deepen_realizes d a stack (.quote t.position op) op t.position rfl
  | opening =>
    simp only [Reader.take, feed, ht]
    exact deepen_realizes d a stack (.list t.position []) Reader.listLabel t.position rfl

/-! ## A whole call -/

/-- the call of the reader on the arena `a` that comes to the machine's answer -/
def Parsed.call (a : Arena) : Parsed → Call
  | .ended => ⟨a, .ended, []⟩
  | .expression e rest => ⟨a.plant e, .expression a.next, rest⟩
  | .failed stack err rest => ⟨opened a stack, .failed err, rest⟩

theorem readOn_eq_parse (d : Nat) (a : Arena) (stack : List Opened) (ts : TokenStream) :
    Reader.readOn d (opened a stack) (containers a.size stack) ts = (parse d stack ts).call a := by
  induction ts generalizing stack with
  | nil =>
    cases stack with
    | nil => simp [Reader.readOn, parse, Parsed.call, containers, opened, stackFrames]
    | cons o below => simp [Reader.readOn, parse, Parsed.call, containers, unfinished_container]
  | cons t ts ih =>
    cases t with
    | error e => rfl
    | ok t =>
      simp only [Reader.readOn, parse, take_realizes]
      rcases feed d stack t with err | ⟨stack⟩ | ⟨e⟩
      · rfl
      · exact ih stack
      · rfl

/-- **The reader is the machine over trees**, and what it finds it puts behind the frames that are there. -/
theorem next_eq_parse (d : Nat) (a : Arena) (ts : TokenStream) : Reader.next d a ts = (parse d [] ts).call a := by
  rw [← readOn_eq_parse]
  simp [Reader.next, opened, stackFrames, containers]

end FrameGraph.Grammar
