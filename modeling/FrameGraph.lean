import FrameGraph.FileTree
import FrameGraph.Main
import FrameGraph.Proofs.Listing
import FrameGraph.Proofs.Written
import FrameGraph.Proofs.Tiling
import FrameGraph.Proofs.History
import FrameGraph.Proofs.Operations
import FrameGraph.Proofs.Entries
import FrameGraph.Proofs.Deliveries
import FrameGraph.Proofs.Faithful
import FrameGraph.Proofs.Decoding
import FrameGraph.Proofs.Composition
import FrameGraph.Proofs.Limits
import FrameGraph.Proofs.Validity
import FrameGraph.Proofs.FloatLiterals
import FrameGraph.Proofs.Inputs
import FrameGraph.Proofs.Splitting
import FrameGraph.Proofs.Pending
import FrameGraph.Proofs.Truncation
import FrameGraph.Proofs.Tags
import FrameGraph.Proofs.Integers
import FrameGraph.Proofs.Locality
import FrameGraph.Proofs.FloatGrammar
import FrameGraph.Proofs.TokenLines
import FrameGraph.Proofs.Bodies
