import PulseProcessor.Board.Device
import PulseProcessor.Board.Sample
import PulseProcessor.Isa.DataMemory

/-!
# The simulated board

Every readout has a circular buffer. While the board runs, every read of the counter word advances
the shot counter by the next step of a schedule and accumulates samples, which overwrite the oldest
ones once the buffers are full.

Counts of samples and ends of windows are numbers of 64 bits, and a board breaks down when one of
them does not fit. A board whose buffers hold nothing breaks down when it has to store a sample.
From then on it answers nothing.
-/

namespace PulseProcessor

/-- Steps of the shot counter, one for each read of the counter word. -/
inductive Schedule where
  | constant (step : UInt32)
  /-- The given steps, then zero. -/
  | steps (list : List UInt32)
  deriving DecidableEq, Repr

namespace Schedule

/-- The next step, and the schedule behind it. -/
def next : Schedule → Nat × Schedule
  | constant step => (step.toNat, constant step)
  | steps [] => (0, steps [])
  | steps (step :: rest) => (step.toNat, steps rest)

end Schedule

/-- A transfer that was carried out. -/
structure Transfer where
  channel : Nat
  address : Nat
  length : Nat
  deriving DecidableEq, Repr

/-- The buffers of the readouts, with the same number of slots each. -/
abbrev Buffers (channels capacity : Nat) : Type := Vector (Vector Word capacity) channels

namespace Buffers

variable {channels capacity : Nat}

/-- Buffers in which nothing has been stored. -/
def blank (channels capacity : Nat) : Buffers channels capacity :=
  .replicate channels (.replicate capacity 0)

/-- Stores a sample of every readout. -/
def store (buffers : Buffers channels capacity) (index : Nat) : Buffers channels capacity :=
  buffers.mapIdx fun channel buffer =>
    buffer.setIfInBounds (index % capacity) (Sample.simulated channel index).toWord

/-- Stores `n` samples of every readout, one after the other; the first has number `first`. -/
def storeFrom (buffers : Buffers channels capacity) (first : Nat) : Nat → Buffers channels capacity
  | 0 => buffers
  | n + 1 => storeFrom (buffers.store first) (first + 1) n

end Buffers

/-- A simulated board. -/
structure Board where
  /-- Samples that the buffer of each readout holds. -/
  capacity : Nat
  /-- Number of readouts. -/
  channels : Nat
  memory : Vector UInt32 1024 := Vector.replicate 1024 0
  program : List Word := []
  running : Bool := false
  starts : Nat := 0
  counterAddr : UInt32 := 1
  count : Nat := 0
  /-- Where the counter stops. -/
  limit : Nat := UInt32.size - 1
  samplesPerCount : Nat := 1
  schedule : Schedule := .constant 1
  /-- Samples accumulated so far. -/
  written : Nat := 0
  buffers : Buffers channels capacity := .blank channels capacity
  /-- Every transfer runs into its deadline. -/
  stalled : Bool := false
  transfers : Array Transfer := #[]
  poisoned : Bool := false

namespace Board

/-- A board that stores several samples while its counter advances by one; never less than one. -/
def withSamplesPerCount (b : Board) (n : Nat) : Board := { b with samplesPerCount := max 1 n }

/-- Gives up in carrying out a request, and for good. -/
def breakDown {α : Type} (b : Board) : Except DeviceError α × Board :=
  (.error .crashed, { b with poisoned := true })

/-- Advances the shot counter and stores the samples up to the new count. -/
def tick (b : Board) : Except DeviceError Unit × Board :=
  let (step, schedule) := b.schedule.next
  let b := { b with schedule }
  let count := min (min (b.count + step) (UInt32.size - 1)) b.limit
  let target := count * b.samplesPerCount
  if target ≥ UInt64.size then b.breakDown
  else if b.capacity = 0 ∧ b.written < target then b.breakDown
  else
    (.ok (), { b with
      count
      buffers := b.buffers.storeFrom b.written (target - b.written)
      written := max b.written target
      memory := b.memory.setIfInBounds b.counterAddr.toNat (UInt32.ofNat count) })

/-! ### Requests -/

def read (b : Board) (addr : UInt32) : Except DeviceError UInt32 × Board :=
  if b.poisoned then (.error .poisoned, b)
  else if addr.toNat ≥ dataMemoryDepth then (.error (.addressOutOfRange addr.toNat), b)
  else
    let (ticked, b) := if b.running ∧ addr = b.counterAddr then b.tick else (.ok (), b)
    (ticked.map fun _ => b.memory.getD addr.toNat 0, b)

/-- Writes a word of data memory. Writing the counter word sets the shot counter, and with it the
place where samples go on. -/
def write (b : Board) (addr value : UInt32) : Except DeviceError Unit × Board :=
  if b.poisoned then (.error .poisoned, b)
  else if addr.toNat ≥ dataMemoryDepth then (.error (.addressOutOfRange addr.toNat), b)
  else
    let b := { b with memory := b.memory.setIfInBounds addr.toNat value }
    if addr = b.counterAddr then
      let b := { b with count := value.toNat }
      let written := value.toNat * b.samplesPerCount
      if written ≥ UInt64.size then b.breakDown else (.ok (), { b with written })
    else (.ok (), b)

def start (b : Board) : Except DeviceError Unit × Board :=
  if b.poisoned then (.error .poisoned, b)
  else (.ok (), { b with running := true, starts := b.starts + 1 })

def stop (b : Board) : Except DeviceError Unit × Board :=
  if b.poisoned then (.error .poisoned, b) else (.ok (), { b with running := false })

/-- Reads the words of a window of a readout's buffer. -/
def transfer (b : Board) (channel address length timeout : Nat) :
    Except DeviceError (List Word) × Board :=
  if b.poisoned then (.error .poisoned, b)
  else if b.stalled then (.error (.timeout timeout), b)
  else if h : channel < b.channels then
    if address + length > b.capacity then
      if address + length ≥ UInt64.size then b.breakDown
      else (.error (.transferOutOfRange address length b.capacity), b)
    else
      (.ok (b.buffers[channel].toArray.extract address (address + length)).toList,
       { b with transfers := b.transfers.push ⟨channel, address, length⟩ })
  else (.error (.unknownChannel channel), b)

/-- Replaces the program. Its length is checked before anything else. -/
def load (b : Board) (words : List Word) : Except DeviceError Unit × Board :=
  if words.length > programMemoryDepth then
    (.error (.addressOutOfRange (words.length % UInt32.size)), b)
  else if b.poisoned then (.error .poisoned, b)
  else (.ok (), { b with program := words })

/-- Carries out a request. -/
def handle (b : Board) : (r : Request) → Except DeviceError r.Answer × Board
  | .capacity => (.ok b.capacity, b)
  | .read addr => b.read addr
  | .write addr value => b.write addr value
  | .start => b.start
  | .stop => b.stop
  | .transfer channel address length timeout => b.transfer channel address length timeout
  | .load words => b.load words

/-- The board as a device. -/
def device : Device Board := ⟨handle⟩

/-- A look at the state of a board that has not broken down. -/
def inspect {α : Type} (b : Board) (look : Board → α) : Except DeviceError α :=
  if b.poisoned then .error .poisoned else .ok (look b)

/-! ### Progress -/

/-- An upper bound on the reads of a word that can still change anything. -/
def pendingReads (b : Board) (addr : UInt32) : Nat :=
  if b.poisoned ∨ ¬ b.running ∨ addr ≠ b.counterAddr then 0
  else
    match b.schedule with
    | .constant step => if step = 0 then 1 else 1 + (b.limit - b.count)
    | .steps list => 1 + list.length

end Board
end PulseProcessor
