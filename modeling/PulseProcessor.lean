import PulseProcessor.Acquisition
import PulseProcessor.Averager
import PulseProcessor.Board.Simulated
import PulseProcessor.Bridge.Remote
import PulseProcessor.CommandLine.Desk
import PulseProcessor.CommandLine.Run
import PulseProcessor.Decimal.Fixed
import PulseProcessor.Emulator.Run
import PulseProcessor.Isa.Decoded
import PulseProcessor.Isa.Operator
import PulseProcessor.Json.Printer
import PulseProcessor.Json.Reader
import PulseProcessor.Json.Record
import PulseProcessor.Listing.Printer
import PulseProcessor.Listing.Reader
import PulseProcessor.Main
import PulseProcessor.Proofs.Assembly.Exactness
import PulseProcessor.Proofs.Assembly.History
import PulseProcessor.Proofs.Assembly.Refusal
import PulseProcessor.Proofs.Assembly.Stability
import PulseProcessor.Proofs.Averager.Acquiring
import PulseProcessor.Proofs.Averager.Counting
import PulseProcessor.Proofs.Board.Circular
import PulseProcessor.Proofs.Bridge.Transparency
import PulseProcessor.Proofs.CommandLine.Streaming
import PulseProcessor.Proofs.Emulator.Lasting
import PulseProcessor.Proofs.Emulator.Limit
import PulseProcessor.Proofs.Emulator.Loading
import PulseProcessor.Proofs.Emulator.Operators
import PulseProcessor.Proofs.Emulator.WellFormed
import PulseProcessor.Proofs.Interpreter.Simulation
import PulseProcessor.Proofs.Listing.Derivation
import PulseProcessor.Proofs.Listing.NormalForm
import PulseProcessor.Proofs.Listing.RoundTrip
import PulseProcessor.Proofs.Pulse.Calls
import PulseProcessor.Proofs.Pulse.Placement
import PulseProcessor.Proofs.Readout.Collecting
import PulseProcessor.Proofs.Readout.Draining
import PulseProcessor.Proofs.Readout.Overwriting
import PulseProcessor.Proofs.Readout.Sizing
import PulseProcessor.Proofs.Readout.Windows
import PulseProcessor.Proofs.Sweep.Atomicity
import PulseProcessor.Proofs.Sweep.Execution
import PulseProcessor.Proofs.Sweep.Ownership
import PulseProcessor.Proofs.Sweep.Recording
import PulseProcessor.Proofs.Sweep.Reservation
import PulseProcessor.Proofs.Text.Numeral
import PulseProcessor.Proofs.WordListing.Acceptance
import PulseProcessor.Proofs.WordListing.Annotation
import PulseProcessor.Proofs.WordListing.Patching
import PulseProcessor.Readout.Averages
import PulseProcessor.Readout.Session
import PulseProcessor.Readout.Source
import PulseProcessor.Readout.Timings
import PulseProcessor.Text.Columns
import PulseProcessor.Text.Lines
import PulseProcessor.Text.Quoted
import PulseProcessor.WordListing.Difference
import PulseProcessor.WordListing.Format
import PulseProcessor.WordListing.Reader
