/-
Why reading fails: the characters make no tokens, or the tokens make no expression.
-/
import FrameGraph.Token

namespace FrameGraph

/-- why tokens make no expression: a closing parenthesis that no list is open for, an end in a list or behind a quote mark, or
lists and quotes too deep in each other -/
inductive SyntaxError where
  | unexpectedClose
  | openList
  | openQuote (mark : String)
  | nestingTooDeep
  deriving DecidableEq, Repr

namespace SyntaxError

def message : SyntaxError → String
  | unexpectedClose => "unexpected closing character ')'"
  | openList => "premature EOF while expecting closing character ')' for '('"
  | openQuote mark => "premature EOF while expecting an expression after '" ++ mark ++ "'"
  | nestingTooDeep => "nesting too deep"

/-- whether more tokens could have mended the error -/
def isPrematureEnd : SyntaxError → Bool
  | openList | openQuote _ => true
  | unexpectedClose | nestingTooDeep => false

end SyntaxError

inductive ReadError where
  | lexical (e : LexError)
  | structural (e : SyntaxError)
  deriving DecidableEq, Repr

namespace ReadError

def message : ReadError → String
  | lexical e => "lexical error: " ++ e.message
  | structural e => "syntax error: " ++ e.message

def isPrematureEnd : ReadError → Bool
  | lexical _ => false
  | structural e => e.isPrematureEnd

/-- whether the tokens behind the error can be read on: they cannot where there are none to come -/
def endsTokens : ReadError → Bool
  | lexical _ => true
  | structural e => e.isPrematureEnd

end ReadError

end FrameGraph
