/-
Words and the leaves that they consist of.

A rule matches the start of a word; the first rule that matches makes a leaf of what it matched, and the rest of the
word is looked at again. The rule for symbols comes last and takes everything.
-/
import FrameGraph.Value

namespace FrameGraph

/-- rules in the order in which they are tried: `1e3` is no integer `1`, and `0x1f` no integer `0` -/
inductive Rule where
  | exponent
  | decimal
  | hex
  | bin
  | integer
  | symbol
  deriving DecidableEq, Repr

/-- a frame without parts, made from the first `length` characters of a word -/
structure Leaf where
  label : Label
  length : Nat
  deriving DecidableEq, Repr

namespace Word

def isHexDigit (c : Char) : Bool :=
  c.isDigit || ('a' ≤ c && c ≤ 'f') || ('A' ≤ c && c ≤ 'F')

def isBinDigit (c : Char) : Bool := c == '0' || c == '1'

def signLength : List Char → Nat
  | '+' :: _ => 1
  | '-' :: _ => 1
  | _ => 0

/-- how many characters at the start of `cs` are in a class, if any are -/
def run (p : Char → Bool) (cs : List Char) : Option Nat :=
  match (cs.takeWhile p).length with
  | 0 => none
  | n + 1 => some (n + 1)

/-- `[+-]?[0-9]+` -/
def signedDigits (cs : List Char) : Option Nat :=
  (run Char.isDigit (cs.drop (signLength cs))).map (signLength cs + ·)

/-- `[+-]?[0-9]+[eE][+-]?[0-9]+` -/
def exponentForm (cs : List Char) : Option Nat :=
  (signedDigits cs).bind fun n =>
    match cs.drop n with
    | 'e' :: rest => (signedDigits rest).map (n + 1 + ·)
    | 'E' :: rest => (signedDigits rest).map (n + 1 + ·)
    | _ => none

/-- `[+-]?[0-9]+\.[0-9]*` -/
def pointForm (cs : List Char) : Option Nat :=
  (signedDigits cs).bind fun n =>
    match cs.drop n with
    | '.' :: rest => some (n + 1 + (rest.takeWhile Char.isDigit).length)
    | _ => none

/-- `0x[0-9a-fA-F]+` -/
def hexForm : List Char → Option Nat
  | '0' :: 'x' :: rest => (run isHexDigit rest).map (2 + ·)
  | _ => none

/-- `0b[01]+` -/
def binForm : List Char → Option Nat
  | '0' :: 'b' :: rest => (run isBinDigit rest).map (2 + ·)
  | _ => none

/-- everything, but not nothing -/
def whole (cs : List Char) : Option Nat := if cs.isEmpty then none else some cs.length

end Word

namespace Rule

def all : List Rule := [exponent, decimal, hex, bin, integer, symbol]

/-- how many characters at the start of a word the rule matches -/
def matchLength : Rule → List Char → Option Nat
  | exponent => Word.exponentForm
  | decimal => Word.pointForm
  | hex => Word.hexForm
  | bin => Word.binForm
  | integer => Word.signedDigits
  | symbol => Word.whole

def kind : Rule → Kind
  | exponent | decimal => .number
  | hex => .hex
  | bin => .bin
  | integer => .integer
  | symbol => .symbol

/-- value of a text that the rule has matched -/
def value? : Rule → List Char → Option Value
  | exponent, cs | decimal, cs => (Binary64.read cs).map fun x => .number (.float x)
  | hex, cs => (Radix.hexadecimal.readInteger (cs.drop 2)).map fun n => .number (.integer n)
  | bin, cs => (Radix.binary.readInteger (cs.drop 2)).map fun n => .number (.integer n)
  | integer, cs => (Radix.decimal.readInteger cs).map fun n => .number (.integer n)
  | symbol, cs => some (.text (String.ofList cs))

/-- the leaf that the rule makes of the start of a word -/
def leaf? (r : Rule) (cs : List Char) : Option Leaf :=
  (r.matchLength cs).bind fun n => (r.value? (cs.take n)).map fun v => ⟨⟨r.kind, v⟩, n⟩

end Rule

namespace Word

/-- the leaf at the start of a word, by the first rule that makes one -/
def classify (cs : List Char) : Option Leaf := Rule.all.findSome? (·.leaf? cs)

end Word

end FrameGraph
