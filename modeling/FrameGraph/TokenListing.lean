/-
Listings of tokens: one line each, indented by the lists that are open around it.

A closing parenthesis stands as far in as the opening one it belongs to; one that belongs to none counts for nothing. Lines are
counted in a signed machine word. A line is twice as long as the number of lists that are open, which is therefore counted as it is:
there is no room for a line that a machine word could not measure.
-/
import FrameGraph.Token

namespace FrameGraph

/-- a listing so far: its text, the number of its lines and of the lists still open -/
structure TokenListing where
  text : String
  count : Int32
  depth : Nat
  deriving DecidableEq, Repr

namespace TokenListing

def empty : TokenListing := ⟨"", 0, 0⟩

def line (depth : Nat) (t : Located Token) : String :=
  String.ofList (List.replicate (2 * depth) ' ') ++ t.position.text ++ " " ++ t.item.text ++ "\n"

def add (l : TokenListing) (t : Located Token) : TokenListing :=
  let depth := if t.item = .closing then l.depth - 1 else l.depth
  ⟨l.text ++ line depth t, l.count + 1, if t.item = .opening then depth + 1 else depth⟩

/-- the closing line -/
def summary (l : TokenListing) : String := ";; " ++ toString l.count ++ " tokens\n"

/-- list tokens up to the first error; only a listing without one has a closing line -/
def addAll (l : TokenListing) : TokenStream → String × Option (Located LexError)
  | [] => (l.text ++ l.summary, none)
  | .error e :: _ => (l.text, some e)
  | .ok t :: ts => (l.add t).addAll ts

end TokenListing

end FrameGraph
