/-
The lexer: from characters to tokens, one character at a time.

Between tokens the lexer is in a gap; blanks and comments stay there and leave nothing behind. Any character that is no
blank, comment, parenthesis or quote mark begins a word, which ends before the next character of these kinds and is
then split into leaves. What the lexer makes of a text depends on the text before it only through its state, so lexing
is a fold (`Lexer.after_append`).
-/
import FrameGraph.Settings
import FrameGraph.Token
import FrameGraph.Word

namespace FrameGraph

namespace Word

/-- leaves of a word that starts at `p`, found in at most `n` steps -/
def leavesFrom : Nat → List Char → Position → TokenStream
  | 0, _, _ => []
  | n + 1, cs, p =>
    if cs.isEmpty then []
    else
      match classify cs with
      | some l => .ok ⟨.leaf l.label, p⟩ :: leavesFrom n (cs.drop l.length) (p.right l.length)
      | none => [.error ⟨.unmatched (String.ofList cs), p⟩]

/-- leaves of a word that starts at `p`; every leaf takes a character, so there are no more leaves than characters -/
def leaves (cs : List Char) (p : Position) : TokenStream := leavesFrom cs.length cs p

end Word

/-- where the lexer stands: between tokens, behind a semicolon, or in a word that starts at `start`, with its characters last to
first -/
inductive Mode where
  | gap
  | comment
  | word (start : Position) (reversed : List Char)
  deriving DecidableEq, Repr

/-- state of the lexer: `here` is the position of the next character, `last` that of the character before it, and
`done` holds the tokens that are complete -/
structure Lexer where
  mode : Mode
  here : Position
  last : Position
  done : Array (Except (Located LexError) (Located Token))

namespace Lexer

def start : Lexer := ⟨.gap, .start, .start, #[]⟩

def isBlank (c : Char) : Bool := c == ' ' || c == '\t' || c == '\r' || c == '\n'

/-- whether `c` continues a word -/
def isWordChar (s : Settings) (c : Char) : Bool :=
  !isBlank c && c != ';' && c != '(' && c != ')' && c != s.quote

/-- the label of a quote mark -/
def quoteLabel (s : Settings) : Label := ⟨.op, .text (String.singleton s.quote)⟩

/-- go on behind `c` -/
def advance (l : Lexer) (c : Char) (mode : Mode) : Lexer := ⟨mode, l.here.after c, l.here, l.done⟩

/-- go on behind `c`, which is the token `t` -/
def emit (l : Lexer) (c : Char) (t : Token) : Lexer := ⟨.gap, l.here.after c, l.here, l.done.push (.ok ⟨t, l.here⟩)⟩

/-- take `c` in a gap; a parenthesis is one even if it is also the quote mark -/
def takeInGap (s : Settings) (l : Lexer) (c : Char) : Lexer :=
  if c = '(' then l.emit c .opening
  else if c = ')' then l.emit c .closing
  else if c = s.quote then l.emit c (.quote (quoteLabel s))
  else if isBlank c then l.advance c .gap
  else if c = ';' then l.advance c .comment
  else l.advance c (.word l.here [c])

/-- complete the word that the lexer is in, if it is in one -/
def flush (l : Lexer) : Lexer :=
  match l.mode with
  | .word p w => { l with mode := .gap, done := l.done ++ Word.leaves w.reverse p }
  | _ => l

def step (s : Settings) (l : Lexer) (c : Char) : Lexer :=
  match l.mode with
  | .gap => l.takeInGap s c
  | .comment => l.advance c (if c = '\n' then .gap else .comment)
  | .word p w => if isWordChar s c then l.advance c (.word p (c :: w)) else l.flush.takeInGap s c

/-- the state behind a text -/
def after (s : Settings) (l : Lexer) (cs : List Char) : Lexer := cs.foldl (step s) l

/-- all tokens, if the source ends or breaks off here; an error takes the place of the word it falls into -/
def finish (l : Lexer) : Option DecodeError → TokenStream
  | none => l.flush.done.toList
  | some e => (l.done.push (.error ⟨.decode e, l.last⟩)).toList

theorem after_append (s : Settings) (l : Lexer) (cs ds : List Char) :
    l.after s (cs ++ ds) = (l.after s cs).after s ds := by
  simp [after]

end Lexer

/-- the tokens of a source -/
def CharSource.tokens (src : CharSource) (s : Settings) : TokenStream :=
  ((Lexer.start.after s src.chars).finish src.fault).upToError

end FrameGraph
