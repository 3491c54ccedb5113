/-
Values of frames: a text, a number, or a native function.

What a native function does when it is called is an `Action`, a program over the arena and the environment that it is
called in: it allocates, copies, looks up, attaches and evaluates frames, and may go on where one of these fails. Actions
carry frames that they allocate, so the two types are defined together.
-/
import FrameGraph.EvalError
import FrameGraph.Handle
import FrameGraph.Kind
import FrameGraph.Number
import FrameGraph.Text.Quoted

namespace FrameGraph

/-- where a frame is attached to another one: in a slot, in place of what is there, whose key is given, or is the tag or the
bare value of what is attached; or behind the children -/
inductive Way where
  | slot (key : String)
  | byTag
  | byValue
  | child
  deriving DecidableEq, Repr

mutual

inductive Value where
  | text (s : String)
  | number (n : Number)
  | native (name : String) (action : Action)
  deriving DecidableEq, Repr

/-- What a native function does; every action gives a handle or fails. An action gives the environment, a fixed handle or the
result of an action before it, counted from the latest, and the environment where there is none. It raises an error of its own.
It does one thing to the arena, with the frames that actions within it give, and gives the frame that this is about; of
`attach`, the target. Of two actions, one behind the other, the second may use the result of the first, and gives the result of
both; or it is done in place of the first where that fails. -/
inductive Action where
  | environment
  | give (h : Handle)
  | earlier (index : Nat)
  | raise (e : EvalError)
  | allocate (kind : Kind) (value : Value)
  | copy (original : Action)
  | slot (frame : Action) (key : String)
  | evaluate (frame place : Action)
  | attach (target : Action) (way : Way) (that : Action)
  | andThen (first second : Action)
  | orElse (first second : Action)
  deriving DecidableEq, Repr

end

namespace Action

/-- an error under the name of the function -/
def fail (name message : String) : Action := raise (.native name message)

/-- the frame in a slot of the environment -/
def fetch (key : String) : Action := slot environment key

/-- the result of evaluating the frame in a slot of the environment -/
def evaluateSlot (key : String) : Action := evaluate (fetch key) environment

/-- the environment, with a new frame in a slot -/
def store (key : String) (kind : Kind) (value : Value) : Action := attach environment (.slot key) (allocate kind value)

/-- the environment, with a new frame as its last child -/
def append (kind : Kind) (value : Value) : Action := attach environment .child (allocate kind value)

/-- actions one after the other; of none, the environment -/
def sequence : List Action → Action
  | [] => .environment
  | [a] => a
  | a :: as => .andThen a (sequence as)

end Action

namespace Value

/-- bare text, without the conventions of any kind -/
def raw : Value → String
  | .text s => s
  | .number n => n.text
  | .native name _ => name

def text? : Value → Option String
  | .text s => some s
  | _ => none

def number? : Value → Option Number
  | .number n => some n
  | _ => none

def integer? (v : Value) : Option Int := v.number?.bind Number.integer?

def float? (v : Value) : Option Binary64 := v.number?.bind Number.float?

/-- a native function as it is shown to programmers -/
def inspectNative (name : String) : String := "NativeFn(" ++ Text.quoted name ++ ")"

end Value

/-- text of a value in a frame of kind `k`: an integer shows the radix of its kind -/
def Kind.format (k : Kind) (v : Value) : String :=
  match v.integer? with
  | some n => radixText k.radix n
  | none => v.raw

/-- what a frame is by itself, apart from its place among others -/
structure Label where
  kind : Kind
  value : Value
  deriving DecidableEq, Repr

namespace Label

def formatted (l : Label) : String := l.kind.format l.value

/-- `<tag:value>` -/
def text (l : Label) : String := "<" ++ l.kind.tag ++ ":" ++ l.formatted ++ ">"

end Label

end FrameGraph
