import Stubwise.Main
import Stubwise.Proofs.Attributes
import Stubwise.Proofs.Calls
import Stubwise.Proofs.Lattice.Bindings
import Stubwise.Proofs.Lattice.Conformance
import Stubwise.Proofs.Lattice.Elements
import Stubwise.Proofs.Lattice.Endless
import Stubwise.Proofs.Lattice.Extremes
import Stubwise.Proofs.Lattice.Inversion
import Stubwise.Proofs.Lattice.StandIns
import Stubwise.Proofs.Lexer.Coverage
import Stubwise.Proofs.Lexer.Decoding
import Stubwise.Proofs.Lexer.Indentation
import Stubwise.Proofs.Lexer.Lookahead
import Stubwise.Proofs.Orderly.Report
import Stubwise.Proofs.Parser.Contexts
import Stubwise.Proofs.Parser.Defaults
import Stubwise.Proofs.Parser.NextLine
import Stubwise.Proofs.Parser.Silence
import Stubwise.Proofs.RoundTrip.Text
import Stubwise.Proofs.Scope.Agreement
import Stubwise.Proofs.Scope.Hoisting
import Stubwise.Proofs.Stub.Cycles
import Stubwise.Proofs.Stub.ModulePaths
