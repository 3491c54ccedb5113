/-
The command line: every input is listed by itself, in an arena of its own, and one that fails does not keep the next
from being listed. Files and standard input are given as values, and so is everything that a run writes.
-/
import FrameGraph.CommandLine.Arguments
import FrameGraph.CommandLine.Sample
import FrameGraph.Listing.Print
import FrameGraph.Source.Blocks
import FrameGraph.TokenListing

namespace FrameGraph.CommandLine

/-- what an input comes to: its output, and the error that it ended with -/
structure Report where
  output : ByteArray
  error : Option InputError

/-- how far a listing went into its input -/
def Report.extent (r : Report) : Extent :=
  match r.error with
  | some (.unreadable _ e) => .ofError e
  | some (.unopened _ _) | none => .whole

/-- how a run ends -/
structure Result where
  stdout : ByteArray
  stderr : String
  exitCode : Nat

/-- standard input is fetched in blocks of this many bytes -/
def blockSize : Nat := 8192

/-- a path that stands for standard input -/
def isStdin (p : Path) : Bool := p.components == [[Arguments.dash]]

def listExpressions (s : Settings) (o : Origin) (src : ByteSource) : Report :=
  let reading := Listing.printAll s src .unlimited
  let error :=
    match reading.ending with
    | .unreadable e => some (.unreadable o e)
    | .all _ | .stopped _ => none
  ⟨reading.state.written, error⟩

def listTokens (s : Settings) (o : Origin) (src : ByteSource) : Report :=
  let (text, e) := TokenListing.empty.addAll (src.decode.tokens s)
  ⟨text.toUTF8, e.map fun e => .unreadable o ⟨.lexical e.item, e.position⟩⟩

def list (r : Request) (o : Origin) (src : ByteSource) : Report :=
  if r.tokens then listTokens r.settings o src else listExpressions r.settings o src

/-- report on a path, and what is left of standard input -/
def report (r : Request) (files : Files) (stdin : ByteSource) (p : Path) : Report × ByteSource :=
  if isStdin p then
    let listed := list r (.special "stdin") stdin
    (listed, stdin.beyond blockSize listed.extent)
  else
    match files p with
    | .error e => (⟨.empty, some (.unopened (.file p) e)⟩, stdin)
    | .ok src => (list r (.file p) src, stdin)

/-- reports on paths in order; a path that stands for standard input finds there what others before it left -/
def reports (r : Request) (files : Files) (stdin : ByteSource) : List Path → List Report
  | [] => []
  | p :: ps =>
    let (report, stdin) := report r files stdin p
    report :: reports r files stdin ps

/-- the line about failed inputs, which fail the run. A command line has fewer arguments than a machine word counts, so that they are
counted as they are -/
def verdict (failed total : Nat) : String × Nat :=
  if failed = 0 then ("", 0)
  else ("Error: " ++ toString failed ++ " of " ++ toString total ++ " inputs failed\n", 1)

/-- do what is asked -/
def run (r : Request) (files : Files) (stdin : ByteSource) : Result :=
  let sample := if r.demo then (Sample.text.toOption.getD "").toUTF8 else .empty
  let reports := reports r files stdin r.paths
  let errors := reports.filterMap Report.error
  let (line, code) := verdict errors.length r.paths.length
  ⟨reports.foldl (fun out x => out ++ x.output) sample,
    errors.foldl (fun err e => err ++ e.message ++ "\n") "" ++ line, code⟩

end FrameGraph.CommandLine
