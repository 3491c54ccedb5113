/-
Listings of a whole source: each expression is listed as soon as it has been read, in an arena that starts empty.
-/
import FrameGraph.Listing
import FrameGraph.Reading
import FrameGraph.Sink

namespace FrameGraph

namespace Listing

/-- print the listing of an expression and a newline -/
def visitor : Visitor Sink WriteError := fun sink a h => sink.print (text a h ++ "\n")

/-- print the listing of every expression of a source; what was printed before an error stays printed -/
def printAll (s : Settings) (src : ByteSource) (sink : Sink) : Reading Sink WriteError :=
  Reading.each s.maxDepth visitor sink .empty (src.decode.tokens s)

end Listing

end FrameGraph
