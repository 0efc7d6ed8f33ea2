import PulseProcessor.CommandLine.Command
import PulseProcessor.CommandLine.Host
import PulseProcessor.Emulator.Run
import PulseProcessor.Listing.Printer
import PulseProcessor.Readout.Timings
import PulseProcessor.WordListing.Difference
import PulseProcessor.WordListing.Format

/-!
# Commands on programs

Assembling a listing, writing the program of an experiment, and assembling many of its variants.
-/

namespace PulseProcessor.CommandLine

variable {m : Type → Type} [Monad m] (host : Host m)

/-- Writes words in the format that the name of the file asks for. -/
def writeWords (path : String) (words : List Word) : CommandT m Unit := do
  let text := WordListing.render (.ofPath path) words
  attempt (.writeWords path) (← host.writeText path text)

/-! ### Assembling -/

/-- A word that may be missing, with its value in decimal digits. -/
def wordOrNone : Option Word → String
  | some w => s!"Some({w})"
  | none => "None"

/-- A line that shows a difference. -/
def differenceLine (d : WordListing.Difference) : String :=
  let index := Text.alignRight 5 (toString d.index)
  match d.left, d.right with
  | some l, some r =>
    let hex (w : Word) : String := Text.hex 16 w.toNat
    s!"word {index}: {hex l} != {hex r} bits " ++ Text.bracketed (d.bits.map toString)
  | l, r => s!"word {index}: {wordOrNone l} != {wordOrNone r}"

/-- Compares words with those of a word listing. -/
def compareWith (path : String) (words : List Word) : CommandT m Unit := do
  let text ← attempt (.readListing path) (← host.readText path)
  let reference ← attempt (.words path) (WordListing.parse text)
  let differences := WordListing.differences words reference
  if differences.isEmpty then host.printLine s!"Identical to {path}"
  host.printLines (differences.map differenceLine)

def Assemble.run (s : Assemble) : CommandT m Unit := do
  let text ← attempt (.readListing s.input) (← host.readText s.input)
  let program ← attempt .listing (Program.ofListing text)
  let words ← attempt .assembly program.encode
  match s.output with
  | some path =>
    writeWords host path words
    host.printLine s!"{words.length} words written to {path}"
  | none => host.print (WordListing.render (if s.binary then .bin else .hex) words)
  match s.reference with
  | some path => compareWith host path words
  | none => pure ()

/-! ### Experiments -/

/-- The register map of an experiment's board. -/
def Experiment.channelMap (e : Experiment) : CommandT m ChannelMap := do
  let map ← match e.map with
    | some path =>
      let text ← attempt (.readMap path) (← host.readText path)
      attempt .assembly (RegisterMap.ofText text)
    | none => pure .standard
  attempt .assembly (ChannelMap.ofRegisterMap map)

/-- The program of an experiment. -/
def Experiment.build (e : Experiment) : CommandT m AveragerProgram := do
  let map ← e.channelMap host
  attempt .assembly (e.acquisition.build map)

/-- A line that shows the values of a swept register. -/
def pointsLine (values : List UInt32) (i : Nat) : String :=
  s!"Sweep register {i}: " ++ Text.bracketed (values.map toString)

/-- An event that sets all registers of a channel. -/
def isPulseOn (channel : UInt8) : Event → Bool
  | .set c .. => c == channel
  | .seti .. => false

/-- Runs a program on the emulator and reports what it did. -/
def emulateProgram (channel : UInt8) (built : AveragerProgram) : CommandT m Unit := do
  let words ← attempt .assembly built.program.encode
  let (answer, e) := (Emulator.ofWords words).run
  attempt .emulation answer
  let pulses := e.machine.events.toList.countP (isPulseOn channel)
  let counter := (e.machine.load? built.counterAddr.toNat).getD 0
  host.printLines ["Emulation", s!"Steps:     {e.steps}", s!"Pulses:    {pulses}",
    s!"Counter:   {counter}"]

def Generate.run (s : Generate) : CommandT m Unit := do
  let built ← s.experiment.build host
  let program := built.program
  host.printLine (s!"Built {program.size} instructions, {built.totalCount} shots published " ++
    s!"to dmem[{built.counterAddr}]")
  host.printLines (built.exptPoints.zipIdx.map fun (values, i) => pointsLine values i)
  match s.output with
  | some path =>
    if Text.fileExtension? path = some "asm" then
      attempt (.writeListing path) (← host.writeText path program.listing)
      host.printLine s!"Listing written to {path}"
    else
      writeWords host path (← attempt .assembly program.encode)
      host.printLine s!"Program written to {path}"
  | none => host.print program.listing
  if s.emulate then emulateProgram host s.experiment.acquisition.channel built

/-! ### Benchmark -/

/-- What the variants so far add up to. -/
structure Tally where
  words : Nat := 0
  /-- Listings that did not reassemble to the words of their program. -/
  mismatched : Nat := 0
  deriving DecidableEq, Repr

/-- Builds an experiment, and assembles the listing of its program again. -/
def Tally.add (t : Tally) (e : Experiment) : CommandT m Tally := do
  let built ← e.build host
  let words ← attempt .assembly built.program.encode
  let program ← attempt .listing (Program.ofListing built.program.listing)
  let again ← attempt .assembly program.encode
  let identical := (WordListing.differences words again).isEmpty
  return ⟨t.words + words.length, if identical then t.mismatched else t.mismatched + 1⟩

/-- The variant of an experiment with `i` more repetitions. -/
def Experiment.variant (e : Experiment) (i : Nat) : Experiment :=
  let reps := e.acquisition.reps + UInt32.ofNat i
  { e with acquisition := { e.acquisition with reps } }

/-- The time between two readings of a clock in seconds; never zero. -/
def seconds (begun ended : Nat) : Float :=
  max (Float.ofNat (ended - begun) / 1e9) (Float.scaleB 1 (-52))

/-- A count for each second. -/
def rate (count : Nat) (seconds : Float) : String :=
  Decimal.fixed 0 (Float.ofNat count / seconds)

def Bench.run (s : Bench) : CommandT m Unit := do
  host.printLine "Starting Benchmark (Parallel - Rayon)..."
  let begun ← host.clock
  let tally ← (List.range s.programs).foldlM
    (fun t i => Tally.add host t (s.experiment.variant i)) {}
  let time := seconds begun (← host.clock)
  host.printLines ["Results", s!"Time:       {Decimal.fixed 4 time} s",
    s!"Programs:   {s.programs}", s!"Words:      {tally.words}",
    s!"Throughput: {rate s.programs time} programs/s",
    s!"Throughput: {rate tally.words time} words/s"]
  if tally.mismatched > 0 then throw (.mismatched tally.mismatched)

end PulseProcessor.CommandLine
