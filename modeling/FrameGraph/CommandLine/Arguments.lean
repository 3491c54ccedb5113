/-
Arguments of the command line.

Options may stand anywhere before `--`; behind it everything is a path, and so is a single dash. An option with a value
takes it behind an equals sign or from the next argument, which must not look like an option. Of a repeated option the
last value counts, but every one of them has to be valid. A path must not be empty.
-/
import FrameGraph.Number.Digits
import FrameGraph.Origin
import FrameGraph.Settings

namespace FrameGraph

/-- an argument, which need not be text -/
abbrev Argument := List UInt8

/-- what a run is asked to do -/
structure Request where
  tokens : Bool
  demo : Bool
  settings : Settings
  paths : List Path
  deriving DecidableEq, Repr

namespace Request

def empty : Request := ⟨false, false, .default, []⟩

end Request

/-- options that take a value -/
inductive ValueOption where
  | quote
  | maxDepth
  deriving DecidableEq, Repr

namespace Arguments

/-- arguments read so far: the option that waits for its value, and whether `--` was met -/
structure State where
  request : Request
  waiting : Option ValueOption
  literal : Bool
  deriving DecidableEq, Repr

/-- the text of an argument that is one -/
def text? (a : Argument) : Option (List Char) :=
  let scanned := Text.Utf8.scan a
  let pieces := scanned.pieces.toList
  if (Text.Utf8.firstStray pieces).isSome || !scanned.unfinished.isEmpty then none
  else some (Text.Utf8.leadingChars pieces)

/-- a quote mark is a single character -/
def readQuote : List Char → Option Char
  | [c] => some c
  | _ => none

/-- a depth is a number of 32 bits; a sign and leading zeros may stand before it -/
def readDepth (cs : List Char) : Option Nat :=
  (Digits.readInteger cs).bind fun n => if 0 ≤ n ∧ n < Nat.pow 2 32 then some n.toNat else none

/-- give an option its value -/
def assign (r : Request) (o : ValueOption) (value : Argument) : Option Request :=
  (text? value).bind fun cs =>
    match o with
    | .quote => (readQuote cs).map fun c => { r with settings := { r.settings with quote := c } }
    | .maxDepth => (readDepth cs).map fun n => { r with settings := { r.settings with maxDepth := n } }

/-- the value behind the first equals sign, and what stands before it -/
def splitValue (a : List Char) : List Char × Option (List Char) :=
  match a.dropWhile (· != '=') with
  | [] => (a, none)
  | _ :: value => (a.takeWhile (· != '='), some value)

/-- an option by its long name, behind the two dashes -/
def takeLong (st : State) (a : List Char) : Option State :=
  let valued (o : ValueOption) : Option (List Char) → Option State
    | some value => (assign st.request o (Text.Utf8.encode value)).map fun r => { st with request := r }
    | none => some { st with waiting := some o }
  match splitValue a with
  | (name, value) =>
    match String.ofList name, value with
    | "tokens", none => some { st with request := { st.request with tokens := true } }
    | "demo", none => some { st with request := { st.request with demo := true } }
    | "quote", value => valued .quote value
    | "max-depth", value => valued .maxDepth value
    | _, _ => none

/-- options by their letters, behind a single dash -/
def takeShort (st : State) (letters : List Char) : Option State :=
  if letters.all (· == 't') then some { st with request := { st.request with tokens := true } } else none

/-- a path, which must not be empty -/
def takePath (st : State) (a : Argument) : Option State :=
  if a.isEmpty then none else some { st with request := { st.request with paths := st.request.paths ++ [⟨a⟩] } }

def dash : UInt8 := 0x2D

/-- take an argument; none if it cannot be accepted -/
def take (st : State) (a : Argument) : Option State :=
  if st.literal then takePath st a
  else
    match a, st.waiting with
    | first :: second :: rest, waiting =>
      if first = dash then
        if waiting.isSome then none
        else if second = dash then
          if rest.isEmpty then some { st with literal := true } else (text? rest).bind (takeLong st)
        else (text? (second :: rest)).bind (takeShort st)
      else takeValue st a waiting
    | _, waiting => takeValue st a waiting
where
  /-- an argument that is no option -/
  takeValue (st : State) (a : Argument) : Option ValueOption → Option State
    | some o => (assign st.request o a).map fun r => { st with request := r, waiting := none }
    | none => takePath st a

/-- read all arguments; none if they are refused -/
def read (args : List Argument) : Option Request :=
  (args.foldlM take ⟨.empty, none, false⟩).bind fun st => if st.waiting.isSome then none else some st.request

end Arguments

end FrameGraph
