import PulseProcessor.Readout.Basic

/-!
# The worker of a readout

The worker clears the counter word and starts the processor. Then it polls: it reads the counter,
and when a stride of samples is unread it fetches them. The buffers are circular, so a window that
crosses their end takes two transfers. Transfers move an even number of samples: a window is cut to
an even length, except the last one, which is fetched with one sample of padding.
-/

namespace PulseProcessor.Readout

/-- A worker at the head of a poll. -/
structure Worker where
  job : Job
  config : Config
  /-- Samples in each buffer of the board. -/
  capacity : Nat
  /-- Samples drained so far. -/
  drained : Nat := 0
  deriving DecidableEq, Repr

/-- What a poll leads to. -/
inductive Progress where
  /-- Too few samples are unread. -/
  | idle
  /-- A window was drained; the worker goes on. -/
  | delivered (chunk : Chunk) (next : Worker)
  | failed (e : Error)
  /-- The worker gave up because it was asked to. -/
  | stopped
  /-- All samples have been drained. -/
  | completed

/-- Where a window of unread samples lies and what is fetched for it. -/
structure Window where
  /-- The count of samples that the counter stands for. -/
  count : Nat
  address : Nat
  length : Nat
  /-- The length with padding. -/
  fetched : Nat
  deriving DecidableEq, Repr

namespace Worker

/-- The window to drain at a reading of the counter; none if there is nothing to do yet. -/
def window (w : Worker) (reading : UInt32) : Except Error (Option Window) :=
  let count := min (reading.toNat * w.config.samplesPerCount) w.job.total
  if count < min (w.drained + w.config.strideFor w.capacity) w.job.total then .ok none
  else
    let unread := count - w.drained
    if unread ≥ w.capacity then .error (.overflow w.drained unread w.capacity)
    else
      let length := if count = w.job.total then unread else unread - unread % 2
      if length = 0 then .ok none
      else .ok (some {
        count, length
        address := w.drained % w.capacity
        fetched := length + length % 2 })

section
variable {σ : Type} (device : Device σ)

/-- Starts a readout: clears the counter word, then starts the processor. -/
def begin (config : Config) (job : Job) (s : σ) : Except DeviceError Worker × σ :=
  match device.handle s .capacity with
  | (.error e, s) => (.error e, s)
  | (.ok capacity, s) =>
    match device.handle s (.write job.counterAddr 0) with
    | (.error e, s) => (.error e, s)
    | (.ok (), s) =>
      match device.handle s .start with
      | (.error e, s) => (.error e, s)
      | (.ok (), s) => (.ok { job, config, capacity := (capacity : Nat) }, s)

/-- Fetches a window of one readout, in two parts if it crosses the end of the buffer. -/
def fetch (w : Worker) (channel address length : Nat) (s : σ) :
    Except DeviceError (List Word) × σ :=
  let transfer (address length : Nat) (s : σ) : Except DeviceError (List Word) × σ :=
    device.handle s (.transfer channel address length w.config.timeout)
  if address + length ≤ w.capacity then transfer address length s
  else
    let tail := w.capacity - address
    match transfer address tail s with
    | (.error e, s) => (.error e, s)
    | (.ok front, s) =>
      match transfer 0 (length - tail) s with
      | (.error e, s) => (.error e, s)
      | (.ok back, s) => (.ok (front ++ back), s)

/-- Fetches a window of several readouts, in their order, and drops the padding. -/
def fetchAll (w : Worker) (window : Window) : List Nat → σ →
    Except DeviceError (List (List Sample)) × σ
  | [], s => (.ok [], s)
  | channel :: rest, s =>
    match w.fetch device channel window.address window.fetched s with
    | (.error e, s) => (.error e, s)
    | (.ok words, s) =>
      match w.fetchAll window rest s with
      | (.error e, s) => (.error e, s)
      | (.ok samples, s) =>
        (.ok ((words.take window.length).map Sample.ofWord :: samples), s)

/-- Drains a window. -/
def drain (w : Worker) (window : Window) (s : σ) : Progress × σ :=
  match w.fetchAll device window w.job.channels s with
  | (.error e, s) => (.failed (.ofDevice e), s)
  | (.ok samples, s) =>
    let chunk : Chunk :=
      { count := window.count, address := window.address, length := window.length, samples }
    (.delivered chunk { w with drained := w.drained + window.length }, s)

/-- One poll. A request to stop is looked at before the counter is read, and only while samples
are missing. -/
def poll (w : Worker) (stop : Bool) (s : σ) : Progress × σ :=
  if w.drained ≥ w.job.total then (.completed, s)
  else if stop then (.stopped, s)
  else
    match device.handle s (.read w.job.counterAddr) with
    | (.error e, s) => (.failed (.ofDevice e), s)
    | (.ok reading, s) =>
      match w.window reading with
      | .error e => (.failed e, s)
      | .ok none => (.idle, s)
      | .ok (some window) => w.drain device window s

/-- Polls until one of them is not idle; no more than `n` times after the first. -/
def pollFor (w : Worker) (stop : Bool) : Nat → σ → Progress × σ
  | 0, s => w.poll device stop s
  | n + 1, s =>
    match w.poll device stop s with
    | (.idle, s) => w.pollFor stop n s
    | answer => answer

end

end Worker
end PulseProcessor.Readout
