/-
The reader: from tokens to frames, one top-level expression at a call.

    expression := leaf | quote expression | '(' expression* ')'

The lists and quotes that are still open stand on a stack, whose height is the depth of nesting and is limited. A quoted
expression becomes the only child of its quote's frame, the elements of a list become its children in order. A call
takes no token behind the expression that it returns, and what it does to the arena before it fails stays.
-/
import FrameGraph.Arena
import FrameGraph.ReadError
import FrameGraph.Settings

namespace FrameGraph

/-- a list or a quote whose end is still to come, with its frame and the position it was opened at -/
inductive Container where
  | list (h : Handle) (opened : Position)
  | quote (h : Handle) (opened : Position) (mark : String)
  deriving DecidableEq, Repr

/-- the error that the tokens end in this container -/
def Container.unfinished : Container → Located ReadError
  | .list _ p => ⟨.structural .openList, p⟩
  | .quote _ p mark => ⟨.structural (.openQuote mark), p⟩

/-- where a call of the reader stands after a token -/
inductive Progress where
  | inside (stack : List Container)
  | complete (h : Handle)
  | failed (e : Located ReadError)
  deriving DecidableEq, Repr

/-- what a call of the reader comes to; it has ended if there were no tokens -/
inductive Outcome where
  | ended
  | expression (h : Handle)
  | failed (e : Located ReadError)
  deriving DecidableEq, Repr

/-- a call of the reader: its outcome, the arena that it leaves and the tokens that it leaves unread -/
structure Call where
  arena : Arena
  outcome : Outcome
  rest : TokenStream

namespace Reader

def listLabel : Label := ⟨.list, .text ""⟩

/-- hand the finished expression `h` to the container it stands in; a quote is finished by it and handed on -/
def hand (a : Arena) (h : Handle) : List Container → Arena × Progress
  | [] => (a, .complete h)
  | .list l p :: below => (a.modify l (·.addChild h), .inside (.list l p :: below))
  | .quote q _ _ :: below => hand (a.modify q (·.addChild h)) q below

/-- take a token; an opening that is nested too deep leaves no frame behind -/
def take (maxDepth : Nat) (a : Arena) (stack : List Container) (t : Located Token) : Arena × Progress :=
  let new := a.next
  match t.item with
  | .leaf l => hand (a.alloc l) new stack
  | .closing =>
    match stack with
    | .list l _ :: below => hand a l below
    | _ => (a, .failed ⟨.structural .unexpectedClose, t.position⟩)
  | .quote op =>
    if maxDepth ≤ stack.length then (a, .failed ⟨.structural .nestingTooDeep, t.position⟩)
    else (a.alloc op, .inside (.quote new t.position op.value.raw :: stack))
  | .opening =>
    if maxDepth ≤ stack.length then (a, .failed ⟨.structural .nestingTooDeep, t.position⟩)
    else (a.alloc listLabel, .inside (.list new t.position :: stack))

/-- read on inside the containers of `stack` -/
def readOn (maxDepth : Nat) (a : Arena) (stack : List Container) : TokenStream → Call
  | [] =>
    match stack with
    | [] => ⟨a, .ended, []⟩
    | c :: _ => ⟨a, .failed c.unfinished, []⟩
  | .error e :: ts => ⟨a, .failed ⟨.lexical e.item, e.position⟩, ts⟩
  | .ok t :: ts =>
    match take maxDepth a stack t with
    | (a, .inside stack) => readOn maxDepth a stack ts
    | (a, .complete h) => ⟨a, .expression h, ts⟩
    | (a, .failed e) => ⟨a, .failed e, ts⟩

/-- read the next top-level expression -/
def next (maxDepth : Nat) (a : Arena) (ts : TokenStream) : Call := readOn maxDepth a [] ts

theorem length_readOn_rest_lt (maxDepth : Nat) (a : Arena) (stack : List Container) {ts : TokenStream} (h : ts ≠ []) :
    (readOn maxDepth a stack ts).rest.length < ts.length := by
  induction ts generalizing a stack with
  | nil => exact absurd rfl h
  | cons t ts ih =>
    cases t with
    | error e => simp [readOn]
    | ok t =>
      simp only [readOn]
      split
      · next b inner _ =>
        by_cases hts : ts = []
        · subst hts; cases inner <;> simp [readOn]
        · exact Nat.lt_succ_of_lt (ih b inner hts)
      · simp
      · simp

/-- a call that does not find the end takes a token -/
theorem length_rest_lt_of_next {maxDepth : Nat} {a : Arena} {ts : TokenStream} {c : Call}
    (h : next maxDepth a ts = c) (hc : c.outcome ≠ .ended) : c.rest.length < ts.length := by
  subst h
  apply length_readOn_rest_lt
  rintro rfl
  exact hc rfl

/-- whether another call can follow -/
def Outcome.canGoOn : Outcome → Bool
  | .ended => false
  | .expression _ => true
  | .failed e => !e.item.endsTokens

/-- call after call on one stream, at most `n` of them, each turned into an answer at once -/
def calls {α : Type} (maxDepth : Nat) (answer : Arena → Outcome → α) : Nat → Arena → TokenStream → List α
  | 0, _, _ => []
  | n + 1, a, ts =>
    match next maxDepth a ts with
    | ⟨a, outcome, rest⟩ =>
      answer a outcome :: if Outcome.canGoOn outcome then calls maxDepth answer n a rest else []

end Reader

end FrameGraph
