import PulseProcessor.CommandLine.Programs
import PulseProcessor.Readout.Averages
import PulseProcessor.Readout.Source

/-!
# Streaming

Running an experiment on a board and reading it out. The worker has a thread of its own and sends
what it drains to a client. The client comes round in regular intervals and takes up what has been
sent. It goes on until it finds nothing in a round at whose head the worker had finished; then
averages and timings are reported.
-/

namespace PulseProcessor.CommandLine

open Readout (Averages Session Source Timings)

/-- What the chunks so far add up to. -/
structure Stream.Summary where
  averages : Averages
  timings : Timings := {}

namespace Stream

variable {m : Type → Type} [Monad m] (host : Host m) {σ : Type} (source : Source σ)

/-- Carries out a request whose failure ends the command. -/
def demand (r : Request) (s : σ) : CommandT m (r.Answer × σ) :=
  match source.handle s r with
  | (.ok answer, s) => return (answer, s)
  | (.error e, _) => throw (.device e)

/-- Microseconds between two rounds of the client. -/
def roundPause : Nat := 5000

/-- Gives the worker's thread some turns. A chunk is timed when it is sent. -/
def giveTurns (begun : Nat) : Nat → Session σ → Timings → m (Session σ × Timings)
  | 0, x, timings => return (x, timings)
  | n + 1, x, timings =>
    match x.turn with
    | (none, x) => giveTurns begun n x timings
    | (some chunk, x) => do
      let elapsed := (← host.clock) - begun
      giveTurns begun n x (timings.add elapsed chunk.length)

/-- Lets the worker's thread go on for as long as the host gives it turns. -/
def yield (pause begun : Nat) (x : Session σ) (timings : Timings) : m (Session σ × Timings) := do
  giveTurns host begun (← host.turns pause) x timings

/-- Takes up the chunks of a readout that has begun at a given time, for at most `n` rounds. The
thread may go on before and behind the look at whether it has finished. -/
def follow (pause begun : Nat) : Nat → Session σ → Summary → CommandT m (Summary × Session σ)
  | 0, _, _ => throw .interrupted
  | n + 1, x, summary => do
    let (x, timings) ← yield host pause begun x summary.timings
    let finished := x.client.done
    let (x, timings) ← yield host pause begun x timings
    let (answer, x) := x.poll
    let chunks ← attempt .readout answer
    let summary : Summary :=
      { averages := chunks.foldl Averages.add summary.averages, timings }
    if finished && chunks.isEmpty then return (summary, x)
    host.pause roundPause
    follow pause begun n x summary

/-- The head of the report. -/
def heading (settings : Stream) (built : AveragerProgram) (words capacity stride : Nat) :
    List String :=
  ["ACQUISITION STREAMING", s!"Program:  {words} words", s!"Shots:    {built.totalCount}",
    s!"Buffer:   {capacity} samples, stride {stride}",
    "Readouts: " ++ Text.bracketed (settings.readouts.map toString),
    "-------------------------------"]

/-- Loads a program on a board, runs it and takes up what is read out: the time at which this has
begun, the sum of all chunks, and the board. -/
def gather (settings : Stream) (built : AveragerProgram) (s : σ) :
    CommandT m (Nat × Summary × σ) := do
  let words ← attempt .assembly built.program.encode
  let (_, s) ← demand source (.load words) s
  let (capacity, s) ← demand source .capacity s
  let config : Readout.Config := { stride := settings.stride, timeout := settings.timeout }
  host.printLines
    (heading settings built words.length capacity (config.strideFor capacity))
  let reps := settings.experiment.acquisition.reps.toNat
  let averages := Averages.empty settings.readouts.length built.firstPoints.length reps
  let begun ← host.clock
  let job : Readout.Job := ⟨built.totalCount, built.counterAddr, settings.readouts⟩
  let (launched, x) := ({ source, config, state := s } : Session σ).launch job
  attempt .readout launched
  let (summary, x) ← follow host settings.pollPause begun (← host.patience) x { averages }
  return (begun, summary, x.state)

/-- Stops the board and reports. -/
def conclude (settings : Stream) (built : AveragerProgram) (begun : Nat) (summary : Summary)
    (s : σ) : CommandT m Unit := do
  let _ ← demand source .stop s
  let time := seconds begun (← host.clock)
  let shots := summary.averages.shots
  host.printLines <|
    ["Results", s!"Time:       {Decimal.fixed 4 time} s",
      s!"Shots:      {shots} / {built.totalCount}",
      s!"Throughput: {rate shots time} shots/s"] ++
    summary.timings.report ++ summary.averages.report settings.readouts built.firstPoints

/-- Runs a program on a board and reads it out. -/
def drive (settings : Stream) (built : AveragerProgram) (s : σ) : CommandT m Unit := do
  let (begun, summary, s) ← gather host source settings built s
  conclude host source settings built begun summary s

/-- The simulated board for a program. -/
def simulatedBoard (settings : Stream) (built : AveragerProgram) : Board :=
  { capacity := settings.capacity
    channels := (settings.readouts.map (· + 1)).foldl max 1
    schedule := .constant settings.increment
    limit := built.totalCount
    counterAddr := built.counterAddr }

def run (settings : Stream) : CommandT m Unit := do
  let built ← settings.experiment.build host
  if settings.readouts.isEmpty then throw .noReadout
  match settings.bridge with
  | none =>
    if built.totalCount ≥ UInt32.size then throw .tooManyShots
    drive host .board settings built (simulatedBoard settings built)
  | some address =>
    host.printLine s!"Connecting to board agent at {address}..."
    match ← host.board? address with
    | none => throw (.unreachable address (.link .unreachable))
    | some board =>
      match Bridge.Remote.connect Board.device board with
      | (.ok capacity, remote) => drive host (.remote capacity) settings built remote
      | (.error e, _) => throw (.unreachable address e)

end Stream
end PulseProcessor.CommandLine
