import PulseProcessor.CommandLine.Run

/-!
# The program

Command lines on the real machine. No board agent is within its reach.
-/

namespace PulseProcessor.CommandLine

/-- The code stands for an error of the given number. Some operations report numbers negated. -/
def isCode (number code : UInt32) : Bool := code == number || code == 0 - number

/-- What an error of the file system means. -/
def FileFault.ofError : IO.Error → FileFault
  | .noFileOrDirectory .. | .noSuchThing .. => missing
  | .inappropriateType _ code _ => if isCode 21 code then directory else notDirectory
  | e@(.invalidArgument _ code _) => if isCode 36 code then nameTooLong else other (toString e)
  | e => other (toString e)

/-- The outcome of an action on a file. -/
def onFile {α : Type} (action : IO α) : IO (Except FileFault α) := do
  match ← action.toBaseIO with
  | .ok a => return .ok a
  | .error e => return .error (.ofError e)

/-- The machine that the program runs on. -/
def machine : Host IO where
  readText path := do
    match ← onFile (IO.FS.readBinFile path) with
    | .error fault => return .error fault
    | .ok bytes =>
      match String.fromUTF8? bytes with
      | some text => return .ok text
      | none => return .error .notText
  writeText path text := onFile (IO.FS.writeFile path text)
  print text := do (← IO.getStdout).putStr text
  complain text := do (← IO.getStderr).putStr text
  clock := IO.monoNanosNow
  pause micros := IO.sleep (UInt32.ofNat (micros / 1000))
  -- As many pauses fit into the one that the command itself makes between two rounds.
  turns micros := return 1 + Stream.roundPause / max 1 micros
  patience := return 1000000000000
  board? _ := return none

end PulseProcessor.CommandLine

def main (args : List String) : IO UInt32 :=
  PulseProcessor.CommandLine.run PulseProcessor.CommandLine.machine args
