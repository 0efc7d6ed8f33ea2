import PulseProcessor.Board.Simulated
import PulseProcessor.Bridge.Remote
import PulseProcessor.Readout.Session

/-!
# Boards as sources

The simulated board, at hand or behind a bridge, as a source of samples.
-/

namespace PulseProcessor.Readout.Source

/-- The simulated board itself. -/
def board : Source Board := { Board.device with pendingReads := Board.pendingReads }

/-- The simulated board behind a bridge to a client that knows its capacity. -/
def remote (capacity : Nat) : Source (Bridge.Remote Board) :=
  { Bridge.Remote.asDevice Board.device capacity with
    pendingReads := fun x => x.far.pendingReads }

end PulseProcessor.Readout.Source
