/-
Positions in a text being read: line and column, both counted from zero in characters.

`Position.afterAll` folds `after` over a text and so gives the position behind it; positions of tokens are such folds.
-/
namespace FrameGraph

/-- zero-based line and column, as machine words -/
structure Position where
  line : UInt32
  column : UInt32
  deriving DecidableEq, Repr, Inhabited

/-- a thing together with the position it starts at -/
structure Located (α : Type) where
  item : α
  position : Position
  deriving DecidableEq, Repr

namespace Position

/-- position of the first character of a text -/
def start : Position := ⟨0, 0⟩

/-- position of the character that follows `c`, where `c` is at `p` -/
def after (p : Position) (c : Char) : Position :=
  if c = '\n' then ⟨p.line + 1, 0⟩ else ⟨p.line, p.column + 1⟩

/-- `n` columns to the right, within the line -/
def right (p : Position) (n : Nat) : Position :=
  ⟨p.line, p.column + UInt32.ofNat n⟩

/-- position behind a whole text that starts at `p` -/
def afterAll (p : Position) (cs : List Char) : Position :=
  cs.foldl after p

/-- `@line.column`; a reader of messages counts lines from one -/
def text (p : Position) : String :=
  "@" ++ toString (p.line + 1).toNat ++ "." ++ toString p.column.toNat

theorem after_newline (p : Position) : p.after '\n' = ⟨p.line + 1, 0⟩ := rfl

theorem after_of_ne {p : Position} {c : Char} (h : c ≠ '\n') : p.after c = ⟨p.line, p.column + 1⟩ := by
  simp [after, h]

theorem afterAll_append (p : Position) (cs ds : List Char) : p.afterAll (cs ++ ds) = (p.afterAll cs).afterAll ds := by
  simp [afterAll]

end Position

end FrameGraph
