import Conform.Session
import Conform.Widget
import Conform.Fixture.Stream
import Conform.Value.Equality
import Conform.Proofs.NamedTests
import Conform.Proofs.Merging
import Conform.Proofs.Classification
import Conform.Proofs.Equality
import Conform.Proofs.Telling
import Conform.Proofs.Resizing
import Conform.Proofs.Walker
import Conform.Proofs.Matcher
import Conform.Proofs.Dispatch
import Conform.Proofs.Trace
import Conform.Proofs.Document
import Conform.Proofs.Parts
import Conform.Proofs.Grammar
import Conform.Proofs.Validation
import Conform.Proofs.Agreement
import Conform.Proofs.Simulation
import Conform.Proofs.Expansion
import Conform.Proofs.Shallow
import Conform.Proofs.Deep
import Conform.Proofs.Written
import Conform.Proofs.OperatorForms
import Conform.Proofs.Location
import Conform.Proofs.Placement
import Conform.Proofs.Openness
import Conform.Proofs.Emission
import Conform.Proofs.Verdict
import Conform.Proofs.Leaves
import Conform.Proofs.NormalForm
import Conform.Proofs.Precedence
import Conform.Proofs.EmptyKeys
import Conform.Proofs.Frozen
import Conform.Proofs.Installed
import Conform.Proofs.Exact
import Conform.Proofs.Parity
import Conform.Proofs.Rounding
import Conform.Proofs.Shortest
import Conform.Proofs.Numerals
import Conform.Proofs.NumberText
import Conform.Proofs.Bounded
