import Vcdiff.Stream
import Vcdiff.Proofs.Truncation
import Vcdiff.Proofs.Chunking
import Vcdiff.Proofs.Calls
import Vcdiff.Proofs.RoundTrip
import Vcdiff.Proofs.Prelude
import Vcdiff.Proofs.Resumption
import Vcdiff.Proofs.Oversized
import Vcdiff.Proofs.Acceptance
import Vcdiff.Proofs.Limits
import Vcdiff.Proofs.TableLoading
import Vcdiff.Proofs.Filtering
import Vcdiff.Proofs.Buffering
import Vcdiff.Proofs.Headers
import Vcdiff.Proofs.Safety
import Vcdiff.Proofs.IndexedParsing
import Vcdiff.Proofs.IndexedCursors
import Vcdiff.Proofs.Sections
import Vcdiff.Proofs.Rounds
import Vcdiff.Proofs.Surplus
import Vcdiff.Proofs.Dictionary
import Vcdiff.Proofs.Modes
import Vcdiff.Proofs.Slots
import Vcdiff.Proofs.InPlace
import Vcdiff.Proofs.Addressing
import Vcdiff.Proofs.Grammar
import Vcdiff.Proofs.Phases
import Vcdiff.Proofs.Recall
import Vcdiff.Proofs.Base128
import Vcdiff.Proofs.Detection
import Vcdiff.Proofs.Regions
import Vcdiff.Proofs.Overflow
