/-
Sources that are fetched in blocks, and what a reading leaves of one.

A reading asks for character after character, and a block is fetched when the next character is not complete in the
blocks before it. A reading that stops at an error has fetched every block up to the one with the byte that settles the
error. What lies behind these blocks is left to the next reading and may begin inside a character; a reading that comes
to the end leaves nothing (`ByteSource.beyond_whole`).
-/
import FrameGraph.ReadError

namespace FrameGraph

/-- how far a reading goes into its source: to the end, up to the first sequence that is no character, or through the character
at a position, which is still read -/
inductive Extent where
  | whole
  | fault
  | through (p : Position)
  deriving DecidableEq, Repr

/-- how far a reading went that ended with `e`. A token that cannot stand where it does is a single character, a
premature end is the end, and in a text only decoding makes a lexical error -/
def Extent.ofError (e : Located ReadError) : Extent :=
  match e.item with
  | .lexical _ => .fault
  | .structural .unexpectedClose | .structural .nestingTooDeep => .through e.position
  | .structural .openList | .structural (.openQuote _) => .whole

/-- number of bytes in the blocks of `size` bytes that hold the first `n` bytes -/
def fetched (size n : Nat) : Nat := (n + size - 1) / size * size

theorem le_fetched {size : Nat} (h : 0 < size) (n : Nat) : n ≤ fetched size n := by
  have := Nat.lt_div_mul_add h (a := n + size - 1)
  unfold fetched
  omega

namespace ByteSource

/-- number of bytes that a reading has to look at -/
def lookedAt (s : ByteSource) : Extent → Nat
  | .whole => s.bytes.length
  | .fault =>
    let pieces := (Text.Utf8.scan s.bytes).pieces.toList
    match Text.Utf8.firstStray pieces with
    | some stray => Text.Utf8.length (Text.Utf8.leadingChars pieces) + Text.Utf8.settling stray
    | none => s.bytes.length
  | .through p =>
    let chars := s.decode
    let before := chars.located.takeWhile (·.position != p)
    Text.Utf8.length (chars.chars.take (before.length + 1))

/-- what a reading leaves of a source that is fetched in blocks of `size` bytes -/
def beyond (s : ByteSource) (size : Nat) (e : Extent) : ByteSource :=
  { s with bytes := s.bytes.drop (fetched size (s.lookedAt e)) }

theorem beyond_whole (s : ByteSource) {size : Nat} (h : 0 < size) : (s.beyond size .whole).bytes = [] :=
  List.drop_eq_nil_of_le (le_fetched h _)

end ByteSource

end FrameGraph
