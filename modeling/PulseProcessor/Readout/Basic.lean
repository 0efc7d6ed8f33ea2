import PulseProcessor.Board.Device
import PulseProcessor.Board.Sample

/-!
# Readouts

A readout drains the accumulation buffers of a board while a program runs. It watches the shot
counter and fetches the samples in chunks before newer ones overwrite them.
-/

namespace PulseProcessor.Readout

/-- Tuning of a readout. -/
structure Config where
  /-- Unread samples that trigger a transfer; a tenth of the buffer if none is given. -/
  stride : Option Nat := none
  /-- Deadline of every single transfer, in milliseconds. -/
  timeout : Nat := 1000
  /-- Samples that the board accumulates while its counter advances by one. -/
  samplesPerCount : Nat := 1
  deriving DecidableEq, Repr

/-- The stride for a buffer of a given capacity. It is positive, and it stays below the capacity
where it can, because waiting for a full buffer would lose every window. -/
def Config.strideFor (c : Config) (capacity : Nat) : Nat :=
  max 1 (min (c.stride.getD (capacity / 10)) (max 1 (capacity - 1)))

/-- What is to be read out. -/
structure Job where
  /-- Samples that the program produces before it ends. -/
  total : Nat
  /-- The data memory word in which it publishes its count. -/
  counterAddr : UInt32
  /-- The readouts that are drained. -/
  channels : List Nat
  deriving DecidableEq, Repr

/-- A drained window. -/
structure Chunk where
  /-- The count of samples that triggered the transfer. -/
  count : Nat
  /-- The place of the first sample in the buffers. -/
  address : Nat
  length : Nat
  /-- The samples, one list for each drained readout. -/
  samples : List (List Sample)
  deriving DecidableEq, Repr

/-- Why a readout is refused, or ends early. -/
inductive Error where
  | alreadyRunning
  /-- Samples were overwritten before they were drained. -/
  | overflow (drained unread capacity : Nat)
  /-- A transfer took longer than the given milliseconds. -/
  | hardwareTimeout (ms : Nat)
  | hardware (e : DeviceError)
  /-- The device broke down under the worker. -/
  | workerCrashed
  deriving DecidableEq, Repr

namespace Error

/-- What a fault of the device means for the readout. -/
def ofDevice : DeviceError → Error
  | .timeout ms => hardwareTimeout ms
  | .crashed => workerCrashed
  | e => hardware e

def message : Error → String
  | alreadyRunning => "a readout is already running"
  | overflow drained unread capacity =>
    s!"accumulation buffer overflow: {unread} unread samples after count {drained} " ++
      s!"(capacity {capacity}), lower the stride or poll faster"
  | hardwareTimeout ms => s!"hardware transfer did not complete within {durationText ms}"
  | hardware e => e.message
  | workerCrashed => "readout worker panicked"

end Error
end PulseProcessor.Readout
