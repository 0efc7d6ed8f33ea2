import PulseProcessor.Readout.Basic

/-!
# The client of a readout

Worker and client share a run: a queue of messages from the one to the other, a request to stop,
and the mark that the worker has finished. Every run has its own, so nothing of an earlier run
reaches a later one. A failure is told only when all chunks in front of it have been taken.
-/

namespace PulseProcessor.Readout

/-- What a worker sends. -/
inductive Message where
  | chunk (c : Chunk)
  | failure (e : Error)
  deriving DecidableEq, Repr

/-- What worker and client share. -/
structure Run where
  /-- Sent and not yet taken, the oldest first. -/
  queue : List Message := []
  stopRequested : Bool := false
  /-- The worker has finished. -/
  done : Bool := false
  deriving DecidableEq, Repr

/-- A client with its latest run. -/
structure Client where
  /-- None before the first run. -/
  run : Option Run := none
  /-- A failure that was found behind chunks. -/
  pending : Option Error := none
  deriving DecidableEq, Repr

namespace Client

/-- A run has been started and has not finished. -/
def alive (c : Client) : Bool := c.run.any (! ·.done)

/-- The latest run has finished, or there was none. -/
def done (c : Client) : Bool := c.run.all (·.done)

def stopRequested (c : Client) : Bool := c.run.any (·.stopRequested)

/-! ### What the client does -/

/-- Begins a run. What a finished run has left is dropped. -/
def start (c : Client) : Except Error Client :=
  if c.alive then .error .alreadyRunning else .ok { run := some {} }

/-- Asks the worker to finish at its next poll. -/
def stop (c : Client) : Client :=
  { c with run := c.run.map fun r => { r with stopRequested := true } }

/-- The chunks at the front of a queue, the failure that ends them, and what is left. -/
def takeChunks : List Message → List Chunk × Option Error × List Message
  | [] => ([], none, [])
  | .failure e :: rest => ([], some e, rest)
  | .chunk c :: rest =>
    let (chunks, failure, rest) := takeChunks rest
    (c :: chunks, failure, rest)

/-- Takes the chunks sent so far. A failure behind chunks is told by the next call. -/
def poll (c : Client) : Except Error (List Chunk) × Client :=
  match c.pending, c.run with
  | some e, _ => (.error e, { c with pending := none })
  | none, none => (.ok [], c)
  | none, some r =>
    let (chunks, failure, queue) := takeChunks r.queue
    let c := { c with run := some { r with queue } }
    match chunks, failure with
    | [], some e => (.error e, c)
    | chunks, failure => (.ok chunks, { c with pending := failure })

/-- What a round of draining leads to. -/
inductive Round where
  | over (answer : Except Error (List Chunk))
  /-- The worker has not finished; these chunks have been taken. -/
  | goesOn (taken : List Chunk)

/-- A round of draining, behind chunks that were taken before. Once the worker has finished, two
polls take all it has sent. A failure is told instead of the chunks. -/
def drainRound (c : Client) (taken : List Chunk) : Round × Client :=
  let finished := c.done
  match c.poll with
  | (.error e, c) => (.over (.error e), c)
  | (.ok chunks, c) =>
    if finished then
      match c.poll with
      | (.error e, c) => (.over (.error e), c)
      | (.ok more, c) => (.over (.ok (taken ++ chunks ++ more)), c)
    else (.goesOn (taken ++ chunks), c)

/-! ### What the worker does -/

def deliver (c : Client) (m : Message) : Client :=
  { c with run := c.run.map fun r => { r with queue := r.queue ++ [m] } }

def finish (c : Client) : Client :=
  { c with run := c.run.map fun r => { r with done := true } }

end Client
end PulseProcessor.Readout
