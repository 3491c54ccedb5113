/-
Tokens: parentheses, quote marks and leaves, and the errors that a stream of them can break off with.
-/
import FrameGraph.Source
import FrameGraph.Value

namespace FrameGraph

/-- a quote mark carries the label of the frame that will hold the quoted expression -/
inductive Token where
  | opening
  | closing
  | quote (op : Label)
  | leaf (l : Label)
  deriving DecidableEq, Repr

def Token.text : Token → String
  | .opening => "("
  | .closing => ")"
  | .quote op => op.value.raw
  | .leaf l => l.text

inductive LexError where
  | decode (e : DecodeError)
  | unmatched (word : String)
  deriving DecidableEq, Repr

def LexError.message : LexError → String
  | .decode e => e.message ++ " after"
  | .unmatched w => "no token matches " ++ Text.quoted w

/-- a message and the position it is about -/
def Located.text {α : Type} (message : α → String) (x : Located α) : String :=
  message x.item ++ " " ++ x.position.text

/-- tokens with their positions; an error ends the stream -/
abbrev TokenStream := List (Except (Located LexError) (Located Token))

/-- the stream up to its first error, which is kept -/
def TokenStream.upToError : TokenStream → TokenStream :=
  fun ts => ts.takeWhile Except.isOk ++ (ts.find? fun t => !t.isOk).toList

end FrameGraph
