import Clausal.Authoring.Denotation
import Clausal.Digest.Sha256
import Clausal.Fault.Report
import Clausal.Node.Draft
import Clausal.Node.Forms
import Clausal.Proofs.Addresses
import Clausal.Proofs.Authoring.Agreement
import Clausal.Proofs.Authoring.Exactness
import Clausal.Proofs.Authoring.Fieldwise
import Clausal.Proofs.Authoring.Filtering
import Clausal.Proofs.Authoring.Nesting
import Clausal.Proofs.Authoring.Options
import Clausal.Proofs.Authoring.Pieces
import Clausal.Proofs.Authoring.Positions
import Clausal.Proofs.Authoring.Representations
import Clausal.Proofs.Authoring.RoundTrip
import Clausal.Proofs.Authoring.Shortening
import Clausal.Proofs.Authoring.Writing
import Clausal.Proofs.Enclosure.Passes
import Clausal.Proofs.Enclosure.Reachability
import Clausal.Proofs.Enclosure.Settling
import Clausal.Proofs.Extension
import Clausal.Proofs.Faults
import Clausal.Proofs.Json.Canonical
import Clausal.Proofs.Json.Lexing
import Clausal.Proofs.Json.Order
import Clausal.Proofs.Json.Parsing
import Clausal.Proofs.Json.Placing
import Clausal.Proofs.Json.Reading
import Clausal.Proofs.Json.Repeating
import Clausal.Proofs.Json.Stopping
import Clausal.Proofs.Json.Writing
import Clausal.Proofs.Legality
import Clausal.Proofs.Node.Arising
import Clausal.Proofs.Node.WellFormed
import Clausal.Proofs.Wire.Building
import Clausal.Proofs.Wire.Canonical
import Clausal.Proofs.Wire.Compact
import Clausal.Proofs.Wire.Failing
import Clausal.Proofs.Wire.Homographs
import Clausal.Proofs.Wire.NodeSpelling
import Clausal.Proofs.Wire.Spelling
import Clausal.Proofs.Wire.Truncation
import Clausal.Proofs.Wire.Yields
