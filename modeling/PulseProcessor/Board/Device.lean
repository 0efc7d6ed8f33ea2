import PulseProcessor.Isa.Field
import PulseProcessor.Text.Digits

/-!
# Devices

A board is used through requests. A `Device` is anything that answers them and moves to a new
state in doing so: the simulated board, or a board at the far end of a connection.
-/

namespace PulseProcessor

/-- A span of time as messages write it: milliseconds below a second, else seconds with as many
decimals as are needed. -/
def durationText (ms : Nat) : String :=
  if ms = 0 then "0ns"
  else if ms < 1000 then s!"{ms}ms"
  else
    let decimals := (Text.fixedDigits 10 3 (ms % 1000)).reverse.dropWhile (· == '0')
    let fraction := if decimals.isEmpty then "" else "." ++ String.ofList decimals.reverse
    s!"{ms / 1000}{fraction}s"

/-- Why a connection could not be made, or gave no more bytes. -/
inductive LinkFault where
  /-- No network leads to the address. -/
  | unreachable
  /-- The peer closed it. -/
  | unexpectedEnd
  /-- The peer stayed silent. -/
  | silence
  deriving DecidableEq, Repr

def LinkFault.message : LinkFault → String
  | unreachable => "Network is unreachable (os error 101)"
  | unexpectedEnd => "failed to fill whole buffer"
  | silence => "Resource temporarily unavailable (os error 11)"

/-- What a peer did against the protocol. -/
inductive ProtocolFault where
  | oversizedLoad (count : Nat)
  | unknownCommand (command : UInt8)
  /-- A status that names no particular fault. -/
  | failure (status : Nat)
  deriving DecidableEq, Repr

def ProtocolFault.message : ProtocolFault → String
  | oversizedLoad count => s!"load of {count} words exceeds program memory"
  | unknownCommand command => s!"unknown command {Text.hex 2 command.toNat}"
  | failure status => s!"board reported failure {status}"

/-- Why a request was not carried out. -/
inductive DeviceError where
  /-- A transfer took longer than the given milliseconds. -/
  | timeout (ms : Nat)
  | transferOutOfRange (address length capacity : Nat)
  | unknownChannel (channel : Nat)
  | addressOutOfRange (addr : Nat)
  | link (fault : LinkFault)
  | protocol (fault : ProtocolFault)
  /-- The device has broken down earlier. -/
  | poisoned
  /-- The device broke down in carrying out this request. -/
  | crashed
  deriving DecidableEq, Repr

def DeviceError.message : DeviceError → String
  | timeout ms => s!"transfer did not complete within {durationText ms}"
  | transferOutOfRange address length capacity =>
    s!"transfer of {length} samples at {address} exceeds buffer of {capacity}"
  | unknownChannel channel => s!"no readout channel {channel}"
  | addressOutOfRange addr => s!"memory address {addr} out of range"
  | link fault => "bridge I/O failed: " ++ fault.message
  | protocol fault => "bridge protocol violation: " ++ fault.message
  | poisoned => "simulation state poisoned"
  | crashed => "device broke down"

/-- What a board can be asked for. -/
inductive Request where
  /-- The number of samples that the buffer of each readout holds. -/
  | capacity
  /-- A word of data memory. -/
  | read (addr : UInt32)
  | write (addr value : UInt32)
  | start
  | stop
  /-- Accumulated samples of a readout, with a deadline in milliseconds. The window must not cross
  the end of the buffer. -/
  | transfer (channel address length timeout : Nat)
  /-- New contents of program memory. -/
  | load (words : List Word)
  deriving DecidableEq, Repr

/-- The type of a request's answer. -/
def Request.Answer : Request → Type
  | capacity => Nat
  | read _ => UInt32
  | transfer .. => List Word
  | _ => Unit

/-- Something that carries out requests. -/
structure Device (σ : Type) where
  handle : σ → (r : Request) → Except DeviceError r.Answer × σ

end PulseProcessor
