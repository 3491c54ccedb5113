/-
Reading a whole source: every top-level expression is shown to a visitor as soon as it is complete, before the tokens
behind it are looked at. The first error ends the reading, be it the reader's or the visitor's.
-/
import FrameGraph.Reader
import FrameGraph.Token.Lexer

namespace FrameGraph

/-- how a reading ends: with the number of expressions, or at an error -/
inductive Ending (ε : Type) where
  | all (count : Nat)
  | unreadable (e : Located ReadError)
  | stopped (e : ε)
  deriving DecidableEq, Repr

/-- a reading: the arena and the visitor's state that it leaves, and its end -/
structure Reading (σ ε : Type) where
  arena : Arena
  state : σ
  ending : Ending ε

/-- what is done with an expression as soon as it is read: it may change the arena and may stop the reading -/
abbrev Visit (σ ε : Type) := σ → Arena → Handle → σ × Arena × Option ε

/-- a visitor takes note of an expression and may stop the reading, but leaves the arena as it is -/
abbrev Visitor (σ ε : Type) := σ → Arena → Handle → σ × Option ε

def Visitor.visit {σ ε : Type} (v : Visitor σ ε) : Visit σ ε := fun s a h => ((v s a h).1, a, (v s a h).2)

namespace Reading

variable {σ ε : Type}

/-- read the expressions of `ts` behind `count` others -/
def onward (maxDepth : Nat) (visit : Visit σ ε) (count : Nat) (s : σ) (a : Arena) (ts : TokenStream) : Reading σ ε :=
  match _called : Reader.next maxDepth a ts with
  | ⟨a, .ended, _⟩ => ⟨a, s, .all count⟩
  | ⟨a, .failed e, _⟩ => ⟨a, s, .unreadable e⟩
  | ⟨a, .expression x, rest⟩ =>
    match visit s a x with
    | (s, a, none) => onward maxDepth visit (count + 1) s a rest
    | (s, a, some e) => ⟨a, s, .stopped e⟩
termination_by ts.length
decreasing_by
  exact Reader.length_rest_lt_of_next _called Outcome.noConfusion

/-- read all expressions of `ts` into an arena, with a visit to each -/
def visiting (maxDepth : Nat) (visit : Visit σ ε) (s : σ) (a : Arena) (ts : TokenStream) : Reading σ ε :=
  onward maxDepth visit 0 s a ts

/-- read all expressions of `ts` into an arena, with a visitor to each -/
def each (maxDepth : Nat) (visitor : Visitor σ ε) (s : σ) (a : Arena) (ts : TokenStream) : Reading σ ε :=
  visiting maxDepth visitor.visit s a ts

/-- note the handle of each expression -/
def collect : Visitor (Array Handle) Empty := fun hs _ h => (hs.push h, none)

/-- read all expressions under the default settings and list their handles -/
def all (a : Arena) (src : CharSource) : Reading (Array Handle) Empty :=
  each Settings.default.maxDepth collect #[] a (src.tokens .default)

end Reading

end FrameGraph
