import PulseProcessor.Readout.Client
import PulseProcessor.Readout.Worker

/-!
# Readout sessions

A session is a device, the thread of the worker that polls it, and the client. The thread goes on in
turns: it lets the worker begin, then polls once a turn, and at the end marks that it has finished.
Any number of turns may lie between two steps of the client.

The steps of the client come in two kinds. `launch`, `ask` and `poll` are the client's alone, and
whoever takes them says how many turns lie between them. `start`, `stop`, `drain` and `withState`
give the thread its turns until it has finished, or until further polls would change nothing.
-/

namespace PulseProcessor.Readout

/-- A device that can say for how long polling it makes sense. -/
structure Source (σ : Type) extends Device σ where
  /-- A number of reads of a word after which further ones find nothing new. -/
  pendingReads : σ → UInt32 → Nat

/-- How far the thread of a worker has come. -/
inductive Thread where
  /-- The worker has not begun. -/
  | engaged (job : Job)
  | polling (w : Worker)
  /-- All has been sent. -/
  | leaving
  deriving DecidableEq, Repr

/-- Samples that are still to be drained. -/
def Thread.missing : Thread → Nat
  | engaged job => job.total
  | polling w => w.job.total - w.drained
  | leaving => 0

/-- The chunk that a poll sends. -/
def Progress.chunk? : Progress → Option Chunk
  | delivered chunk _ => some chunk
  | _ => none

/-- Device, worker and client. -/
structure Session (σ : Type) where
  source : Source σ
  config : Config
  state : σ
  /-- The thread of the worker, until it has finished. -/
  thread : Option Thread := none
  client : Client := {}

namespace Session

variable {σ : Type}

/-! ### Turns of the thread -/

/-- Takes up what a poll of the worker led to. -/
def post (x : Session σ) : Progress → Session σ
  | .idle => x
  | .delivered chunk next =>
    { x with thread := some (.polling next), client := x.client.deliver (.chunk chunk) }
  | .failed e => { x with thread := some .leaving, client := x.client.deliver (.failure e) }
  | .stopped | .completed => { x with thread := some .leaving }

/-- One turn of the thread, and the chunk that it sends. -/
def turn (x : Session σ) : Option Chunk × Session σ :=
  match x.thread with
  | none => (none, x)
  | some (.engaged job) =>
    match Worker.begin x.source.toDevice x.config job x.state with
    | (.ok w, s) => (none, { x with state := s, thread := some (.polling w) })
    | (.error e, s) => (none, { x with state := s }.post (.failed (.ofDevice e)))
  | some (.polling w) =>
    let (progress, s) := w.poll x.source.toDevice x.client.stopRequested x.state
    (progress.chunk?, { x with state := s }.post progress)
  | some .leaving => (none, { x with thread := none, client := x.client.finish })

/-- Idle polls after which the worker rests. Where a count stands for no samples, no reading can
make a difference. -/
def patience (x : Session σ) (w : Worker) : Nat :=
  if w.config.samplesPerCount = 0 then 0 else x.source.pendingReads x.state w.job.counterAddr

/-- Gives the thread its turns, for as long as it does not rest, until it has come on `n` times. -/
def settleFor : Nat → Session σ → Session σ
  | 0, x => x
  | n + 1, x =>
    match x.thread with
    | none => x
    | some (.polling w) =>
      let (progress, s) :=
        w.pollFor x.source.toDevice x.client.stopRequested (x.patience w) x.state
      let x := { x with state := s }.post progress
      match progress with
      | .idle => x
      | _ => settleFor n x
    | some _ => settleFor n x.turn.2

/-- Gives the thread its turns. To begin, to end and to finish are three, and every chunk brings it
closer to the total. -/
def settle (x : Session σ) : Session σ :=
  match x.thread with
  | none => x
  | some thread => x.settleFor (thread.missing + 3)

/-! ### Steps of the client -/

/-- Begins a run. -/
def launch (x : Session σ) (job : Job) : Except Error Unit × Session σ :=
  match x.client.start with
  | .error e => (.error e, x)
  | .ok client => (.ok (), { x with client, thread := some (.engaged job) })

/-- Asks the worker to finish at its next poll. -/
def ask (x : Session σ) : Session σ := { x with client := x.client.stop }

/-- Takes the chunks sent so far. -/
def poll (x : Session σ) : Except Error (List Chunk) × Session σ :=
  let (answer, client) := x.client.poll
  (answer, { x with client })

/-! ### Steps with turns behind them -/

/-- Begins a readout. -/
def start (x : Session σ) (job : Job) : Except Error Unit × Session σ :=
  match x.launch job with
  | (.error e, x) => (.error e, x)
  | (.ok (), x) => (.ok (), x.settle)

def stop (x : Session σ) : Session σ := x.ask.settle

/-- Takes chunks until the worker has finished. One that rests is asked to stop. -/
def drain (x : Session σ) : Except Error (List Chunk) × Session σ :=
  match x.client.drainRound [] with
  | (.over answer, client) => (answer, { x with client })
  | (.goesOn taken, client) =>
    let x := { x with client }.stop
    match x.client.drainRound taken with
    | (.over answer, client) => (answer, { x with client })
    | (.goesOn taken, client) => (.ok taken, { x with client })

/-- A step of somebody else who uses the device. -/
def withState {α : Type} (x : Session σ) (step : σ → α × σ) : α × Session σ :=
  let (answer, s) := step x.state
  (answer, { x with state := s }.settle)

end Session
end PulseProcessor.Readout
