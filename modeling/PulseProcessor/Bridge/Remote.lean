import PulseProcessor.Bridge.Agent

/-!
# Remote devices

The client's end of a bridge. Every request waits for its reply, so a connection carries one frame
at a time. Statuses say what went wrong and not with which numbers; for a transfer the client puts
in those of its request.
-/

namespace PulseProcessor.Bridge

/-- A connection as its client sees it. -/
structure Line where
  /-- Received and not yet read. -/
  inbox : List UInt8 := []
  /-- What a reader finds behind the inbox. -/
  ending : LinkFault
  deriving DecidableEq, Repr

namespace Line

/-- Reads bytes. One that asks for more than there are takes them all and fails. -/
def read {α : Type} (take? : List UInt8 → Option (α × List UInt8)) (line : Line) :
    Except DeviceError α × Line :=
  match take? line.inbox with
  | some (a, rest) => (.ok a, { line with inbox := rest })
  | none => (.error (.link line.ending), { line with inbox := [] })

/-- Reads a status. -/
def readStatus (line : Line) : Except DeviceError Unit × Line :=
  let (status, line) := line.read (takeNumber? 4)
  (status >>= ofStatus, line)

/-- Reads the payload of a reply. -/
def readPayload : (r : Request) → Line → Except DeviceError r.Answer × Line
  | .capacity, line => line.read (takeNumber? 4)
  | .read _, line =>
    let (value, line) := line.read (takeNumber? 4)
    (value.map UInt32.ofNat, line)
  | .transfer _ _ length _, line => line.read (takeWords? length)
  | .write .., line | .start, line | .stop, line | .load _, line => (.ok (), line)

/-- Reads a reply. -/
def receive (r : Request) (line : Line) : Except DeviceError r.Answer × Line :=
  match line.readStatus with
  | (.error e, line) => (.error e, line)
  | (.ok (), line) => line.readPayload r

end Line

/-- The fault of a request, with its numbers as far as the client knows them. -/
def completeFault (capacity : Nat) : Request → DeviceError → DeviceError
  | .transfer _ _ _ timeout, .link .silence => .timeout timeout
  | .transfer _ _ _ timeout, .timeout _ => .timeout timeout
  | .transfer channel _ _ _, .unknownChannel _ => .unknownChannel channel
  | .transfer _ address length _, .transferOutOfRange .. =>
    .transferOutOfRange address length capacity
  | _, e => e

/-- Reads the reply to a request of a client that knows the board's capacity. -/
def Line.answer (capacity : Nat) (r : Request) (line : Line) :
    Except DeviceError r.Answer × Line :=
  let (answer, line) := line.receive r
  (answer.mapError (completeFault capacity r), line)

/-- A device at the far end of a connection. -/
structure Remote (σ : Type) where
  /-- The state of the device. -/
  far : σ
  line : Line := { ending := .silence }
  /-- What has become of the connection at the far end. -/
  served : Except DeviceError Unit := .ok ()

namespace Remote

variable {σ : Type} (device : Device σ)

/-- Sends the bytes of a request, and lets the agent answer as long as it serves. -/
def send (bytes : List UInt8) (x : Remote σ) : Remote σ :=
  match x.served with
  | .error _ => x
  | .ok () =>
    let served := serve device x.far bytes
    let ending : LinkFault := match served.outcome with
      | .ok () => .silence
      | .error _ => .unexpectedEnd
    { far := served.state
      line := { inbox := x.line.inbox ++ served.reply, ending }
      served := served.outcome }

/-- Sends a request and reads its reply. -/
def call (capacity : Nat) (r : Request) (x : Remote σ) : Except DeviceError r.Answer × Remote σ :=
  let x := x.send device r.bytes
  let (answer, line) := x.line.answer capacity r
  (answer, { x with line })

/-- Asks a newly reached agent for the capacity of its board. -/
def connect (s : σ) : Except DeviceError Nat × Remote σ :=
  ({ far := s } : Remote σ).call device 0 .capacity

/-- The device behind a connection as a device of its own. The capacity is asked for only once. -/
def handle (capacity : Nat) (x : Remote σ) :
    (r : Request) → Except DeviceError r.Answer × Remote σ
  | .capacity => (.ok capacity, x)
  | r => x.call device capacity r

/-- The far device, seen through a connection to a board of a given capacity. -/
def asDevice (capacity : Nat) : Device (Remote σ) := ⟨handle device capacity⟩

end Remote
end PulseProcessor.Bridge
