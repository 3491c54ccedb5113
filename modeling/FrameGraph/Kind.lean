/-
Kinds of frames. The kind decides a frame's tag, how its value is written and whether it can be evaluated.

A tag names a kind in any case of its letters; a tag that names no built-in kind is a kind of its own.
-/
import FrameGraph.Text.LowerCase

namespace FrameGraph

inductive Kind where
  | frame
  | symbol
  | string
  | number
  | integer
  | hex
  | bin
  | list
  | op
  | fn
  | env
  | error
  | custom (tag : String)
  deriving DecidableEq, Repr, Inhabited

/-- kinds that behave alike -/
inductive Family where
  | plain
  | primitive
  | container
  | active
  | environment
  | error
  deriving DecidableEq, Repr

namespace Kind

def tag : Kind → String
  | frame => "frame"
  | symbol => "symbol"
  | string => "string"
  | number => "number"
  | integer => "integer"
  | hex => "hex"
  | bin => "bin"
  | list => "list"
  | op => "op"
  | fn => "fn"
  | env => "env"
  | error => "error"
  | custom t => t

/-- all kinds but the custom ones -/
def builtin : List Kind :=
  [frame, symbol, string, number, integer, hex, bin, list, op, fn, env, error]

/-- the built-in kind with exactly this tag -/
def builtin? (t : String) : Option Kind := builtin.find? (·.tag == t)

/-- the kind that a tag names, in whatever case it is written: one that names nothing as it stands is looked up again in lower
case. That is done once at most, since lower case is left as it is -/
def ofTag (t : String) : Kind :=
  match builtin? t with
  | some k => k
  | none =>
    let l := Text.lower t
    if _same : l = t then custom t else ofTag l
termination_by if Text.lower t = t then 0 else 1
decreasing_by
  rw [if_neg _same, if_pos (Text.lower_lower t)]
  exact Nat.zero_lt_one

def family : Kind → Family
  | frame | custom _ => .plain
  | symbol | string | number | integer | hex | bin => .primitive
  | list => .container
  | op | fn => .active
  | env => .environment
  | error => .error

/-- the kind that this one specialises -/
def parent : Kind → Option Kind
  | integer => some number
  | hex | bin => some integer
  | _ => none

/-- the kind itself and all that it specialises, nearest first -/
def lineage : Kind → List Kind
  | integer => [integer, number]
  | hex => [hex, integer, number]
  | bin => [bin, integer, number]
  | k => [k]

/-- whether `k` is `other` or a specialisation of it -/
def isA (k other : Kind) : Bool := k.lineage.contains other

/-- the radix that integers of this kind are written in -/
def radix : Kind → Nat
  | hex => 16
  | bin => 2
  | _ => 10

theorem lineage_eq (k : Kind) : k.lineage = k :: (k.parent.map lineage).getD [] := by
  cases k <;> rfl

end Kind

end FrameGraph
