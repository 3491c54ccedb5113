/-
Sinks: where output is written. A sink takes a limited number of bytes in all, or any number, and what it has taken
stays even if the rest of the same text is refused.
-/
namespace FrameGraph

/-- why a sink refuses -/
inductive WriteError where
  | full
  | unflushed
  deriving DecidableEq, Repr

def WriteError.reason : WriteError → String
  | .full => "sink full"
  | .unflushed => "flush failed"

def WriteError.message (e : WriteError) : String := "write error: " ++ e.reason

/-- `room` is the number of bytes that the sink still takes, where that is limited -/
structure Sink where
  written : ByteArray
  room : Option Nat
  flushable : Bool

namespace Sink

/-- takes everything -/
def unlimited : Sink := ⟨.empty, none, true⟩

/-- takes `n` bytes in all -/
def limited (n : Nat) : Sink := ⟨.empty, some n, true⟩

/-- write as much as there is room for -/
def write (s : Sink) (bytes : ByteArray) : Sink × Option WriteError :=
  match s.room with
  | none => ({ s with written := s.written ++ bytes }, none)
  | some n =>
    if bytes.size ≤ n then ({ s with written := s.written ++ bytes, room := some (n - bytes.size) }, none)
    else ({ s with written := s.written ++ bytes.extract 0 n, room := some 0 }, some .full)

def flush (s : Sink) : Option WriteError := if s.flushable then none else some .unflushed

/-- write a text and flush -/
def print (s : Sink) (text : String) : Sink × Option WriteError :=
  match s.write text.toUTF8 with
  | (s, none) => (s, s.flush)
  | (s, some e) => (s, some e)

end Sink

end FrameGraph
