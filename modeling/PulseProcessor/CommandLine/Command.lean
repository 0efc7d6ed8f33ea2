import PulseProcessor.Acquisition
import PulseProcessor.CommandLine.Grammar

/-!
# Commands

The four commands with their settings and parameters, and how a command line selects one.
-/

namespace PulseProcessor.CommandLine

/-- An experiment, and the file with the register map of its board. -/
structure Experiment where
  acquisition : Acquisition := {}
  /-- The standard map is used if there is none. -/
  map : Option String := none
  deriving DecidableEq, Repr

/-- Assembles a listing. -/
structure Assemble where
  input : String := ""
  output : Option String := none
  /-- Prints words in binary digits. -/
  binary : Bool := false
  /-- A word listing to compare the words with. -/
  reference : Option String := none
  deriving DecidableEq, Repr

/-- Writes the program of an experiment. -/
structure Generate where
  experiment : Experiment := {}
  output : Option String := none
  emulate : Bool := false
  deriving DecidableEq, Repr

/-- Runs an experiment and reads it out. -/
structure Stream where
  experiment : Experiment := {}
  /-- The address of a board; it is simulated if there is none. -/
  bridge : Option String := none
  /-- Samples that the buffers of the simulated board hold. -/
  capacity : Nat := 16384
  /-- Shots that the simulated board completes for each read of its counter. -/
  increment : UInt32 := 8
  stride : Option Nat := none
  /-- Pause between polls, in microseconds. -/
  pollPause : Nat := 1000
  /-- Deadline of a transfer, in milliseconds. -/
  timeout : Nat := 1000
  readouts : List Nat := [0]
  deriving DecidableEq, Repr

/-- Assembles many variants of an experiment's program. -/
structure Bench where
  experiment : Experiment := {}
  programs : Nat := 1000
  deriving DecidableEq, Repr

/-- A command with its settings. -/
inductive Command where
  | assemble (settings : Assemble)
  | generate (settings : Generate)
  | stream (settings : Stream)
  | bench (settings : Bench)
  deriving DecidableEq, Repr

/-! ### Parameters -/

section
variable {σ : Type}

/-- A parameter whose value is read by `read?`. -/
def setting {α : Type} (long name summary : String) (read? : String → Option α)
    (set : α → σ → σ) : Parameter σ :=
  { long, summary, action := .value name fun text s => (read? text).map (set · s) }

/-- A flag. -/
def switch (long summary : String) (set : σ → σ) : Parameter σ :=
  { long, summary, action := .flag set }

/-- A parameter whose values are read one by one. -/
def listing {α : Type} (long name summary : String) (read? : String → Option α)
    (set : List α → σ → σ) : Parameter σ :=
  { long, summary, action := .values name fun texts s => (texts.mapM read?).map (set · s) }

/-- Asks for a log. No command writes one. -/
def verbose : Parameter σ :=
  { switch "verbose" "Log at debug level regardless of RUST_LOG" id with short := some 'v' }

/-- The file that a command writes. -/
def outputFile (summary : String) (set : Option String → σ → σ) : Parameter σ :=
  { setting "output" "OUTPUT" summary path? (fun path => set (some path)) with short := some 'o' }

end

def acquisitionParameters : List (Parameter Acquisition) := [
  setting "reps" "REPS" "Repetitions per sweep point [default: 100]" word32?
    fun reps a => { a with reps },
  setting "expts" "EXPTS" "Gain sweep points; 1 disables the sweep [default: 1]" word32?
    fun points a => { a with points },
  setting "ch" "CH" "Generator channel of the readout pulse [default: 7]" byte?
    fun channel a => { a with channel },
  setting "freq" "FREQ" "Frequency register value of the readout pulse [default: 100000]" int64?
    fun freq a => { a with freq },
  setting "gain-start" "GAIN_START" "[default: 1000]" int64?
    fun gainStart a => { a with gainStart },
  setting "gain-step" "GAIN_STEP" "[default: 500]" int64?
    fun gainStep a => { a with gainStep },
  setting "length" "LENGTH" "Pulse length in fabric cycles [default: 400]" word32?
    fun length a => { a with length },
  setting "adc-offset" "ADC_OFFSET" "Trigger offset from pulse start [default: 200]" int64?
    fun triggerOffset a => { a with triggerOffset },
  setting "relax" "RELAX" "Relaxation delay after each shot [default: 1000]" int64?
    fun relax a => { a with relax },
  listing "adcs" "ADCS" "Readout triggers to raise [default: 0]" byte?
    fun triggers a => { a with triggers }]

def experimentParameters : List (Parameter Experiment) :=
  (acquisitionParameters.map fun p =>
    p.within Experiment.acquisition fun acquisition e => { e with acquisition }) ++
  [setting "map" "MAP" "Register map JSON; the built-in QICK layout when omitted" path?
    fun path e => { e with map := some path }]

/-- The parameters of an experiment in a command's settings. -/
def experimentIn {σ : Type} (get : σ → Experiment) (put : Experiment → σ → σ) :
    List (Parameter σ) :=
  experimentParameters.map fun p => p.within get put

/-- A grammar with the parameter that every command has. -/
def withVerbose {σ : Type} (parameters : List (Parameter σ))
    (operand : Option (Operand σ) := none) : Grammar σ :=
  { parameters := parameters.take 1 ++ verbose :: parameters.drop 1, operand }

namespace Assemble

def grammar : Grammar Assemble := withVerbose [
  outputFile "Output file; .bin writes binary words, anything else hex"
    fun output s => { s with output },
  switch "bin" "Print binary words instead of hex" fun s => { s with binary := true },
  setting "compare" "COMPARE" "Word listing to diff the result against" path?
    fun path s => { s with reference := some path }]
  (some { name := "INPUT", set := fun text s => (path? text).map fun input => { s with input } })

end Assemble

namespace Generate

def grammar : Grammar Generate := withVerbose <|
  experimentIn Generate.experiment (fun experiment s => { s with experiment }) ++ [
  outputFile "Output file; .asm writes the listing, .bin/.hex the words"
    fun output s => { s with output },
  switch "emulate" "Run the program on the reference emulator" fun s => { s with emulate := true }]

end Generate

namespace Stream

def grammar : Grammar Stream := withVerbose <|
  experimentIn Stream.experiment (fun experiment s => { s with experiment }) ++ [
  setting "bridge" "BRIDGE" "Board agent address; the built-in simulation when omitted" some
    fun address s => { s with bridge := some address },
  setting "capacity" "CAPACITY"
    "Accumulation buffer depth of the simulated board [default: 16384]" natural?
    fun capacity s => { s with capacity },
  setting "increment" "INCREMENT"
    "Shots the simulated board completes per counter poll [default: 8]" word32?
    fun increment s => { s with increment },
  setting "stride" "STRIDE"
    "Unread samples that trigger a transfer; a tenth of the buffer when omitted" natural?
    fun stride s => { s with stride := some stride },
  setting "poll-us" "POLL_US" "[default: 1000]" natural? fun pollPause s => { s with pollPause },
  setting "timeout-ms" "TIMEOUT_MS" "[default: 1000]" natural? fun timeout s => { s with timeout },
  listing "readouts" "READOUTS" "Readout channels to drain [default: 0]" natural?
    fun readouts s => { s with readouts }]

end Stream

namespace Bench

def grammar : Grammar Bench := withVerbose <|
  experimentIn Bench.experiment (fun experiment s => { s with experiment }) ++ [
  setting "programs" "PROGRAMS" "[default: 1000]" natural?
    fun programs s => { s with programs }]

end Bench

/-! ### Help -/

/-- The name of the program. -/
def programName : String := "tproc"

/-- Rows of two columns, the second of which starts in one place. -/
def columns (rows : List (String × String)) : List String :=
  let width := (rows.map (·.1.length)).foldl max 0
  rows.map fun (left, right) =>
    "  " ++ left ++ String.ofList (List.replicate (width - left.length) ' ') ++ "  " ++ right

/-- How a parameter is written. -/
def Parameter.usage {σ : Type} (p : Parameter σ) : String :=
  let short := match p.short with
    | some c => s!"-{c}, "
    | none => "    "
  let value := match p.action with
    | .flag _ => ""
    | .value name _ | .values name _ => s!" <{name}>"
  short ++ "--" ++ p.long ++ value

/-- The section of a help text that lists parameters. -/
def parameterHelp {σ : Type} (parameters : List (Parameter σ)) : List String :=
  "Options:" ::
    columns (parameters.map (fun p => (p.usage, p.summary)) ++ [("-h, --help", "Print help")])

/-- The section of a help text that lists operands. -/
def operandHelp (rows : List (String × String)) : List String := "Arguments:" :: columns rows

/-- The help text of a command. -/
def Grammar.help {σ : Type} (g : Grammar σ) (name summary : String) : List String :=
  let operands := match g.operand with
    | some operand => [s!"<{operand.name}>"]
    | none => []
  let usage := ["Usage: " ++ programName, name, "[OPTIONS]"] ++ operands
  [summary, "", " ".intercalate usage, ""] ++
  operands.flatMap (fun operand => operandHelp [(operand, "")] ++ [""]) ++
  parameterHelp g.parameters

/-- What is done with each command's name. -/
def summaries : List (String × String) := [
  ("asm", "Assemble a listing into program words"),
  ("gen", "Generate the swept acquisition program"),
  ("stream", "Run a readout against the simulated board or a board agent"),
  ("bench", "Parallel assembly throughput"),
  ("help", "Print this message or the help of the given subcommand(s)")]

/-- The help text of the program. -/
def generalHelp : List String :=
  ["tProc assembler and acquisition streamer", "",
    s!"Usage: {programName} [OPTIONS] <COMMAND>", "", "Commands:"] ++ columns summaries ++
  [""] ++ parameterHelp [(verbose : Parameter Unit)]

/-- The help text of the command that shows help texts. -/
def helpHelp : List String :=
  [(summaries.lookup "help").getD "", "", s!"Usage: {programName} help [COMMAND]...", ""] ++
  operandHelp [("[COMMAND]...", "Print help for the subcommand(s)")]

/-! ### Command lines -/

/-- What a command line asks for. -/
inductive Invocation where
  | command (c : Command)
  /-- A help text, line by line. -/
  | help (lines : List String)

/-- The command that its settings, read by a grammar, make. -/
def Grammar.command {σ : Type} (g : Grammar σ) (name : String) (initial : σ) (make : σ → Command)
    (args : List String) : Except UsageError Invocation :=
  match g.read initial args with
  | .ok settings => .ok (.command (make settings))
  | .error .help => .ok (.help (g.help name ((summaries.lookup name).getD "")))
  | .error (.wrong e) => .error e

/-- The command of a given name. -/
def Invocation.ofCommand (args : List String) : String → Except UsageError Invocation
  | "asm" => Assemble.grammar.command "asm" {} .assemble args
  | "gen" => Generate.grammar.command "gen" {} .generate args
  | "stream" => Stream.grammar.command "stream" {} .stream args
  | "bench" => Bench.grammar.command "bench" {} .bench args
  | name => .error (.unknownCommand name)

/-- What the command `help` asks for. -/
def Invocation.ofHelp : List String → Except UsageError Invocation
  | [] => .ok (.help generalHelp)
  | ["help"] => .ok (.help helpHelp)
  | [name] => Invocation.ofCommand ["--help"] name
  | _ :: arg :: _ => .error (.unknownCommand arg)

/-- Reads a command line. Parameters for all commands may stand in front of the command. -/
def Invocation.ofArgs (args : List String) : Except UsageError Invocation :=
  let general : Grammar Unit := { parameters := [verbose] }
  match general.read () (args.takeWhile hasDash), args.dropWhile hasDash with
  | .error .help, _ => .ok (.help generalHelp)
  | .error (.wrong e), _ => .error e
  | .ok (), [] => .error .missingCommand
  | .ok (), name :: rest =>
    if (args.takeWhile hasDash).contains "--" then .error (.unknownCommand name)
    else if name = "help" then Invocation.ofHelp rest
    else Invocation.ofCommand rest name

end PulseProcessor.CommandLine
