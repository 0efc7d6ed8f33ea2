import PulseProcessor.CommandLine.Streaming

/-!
# Running command lines

From the arguments of a command line to its exit status.
-/

namespace PulseProcessor.CommandLine

variable {m : Type → Type} [Monad m] (host : Host m)

def Command.run : Command → CommandT m Unit
  | assemble settings => settings.run host
  | generate settings => settings.run host
  | stream settings => settings.run host
  | bench settings => settings.run host

/-- Runs a command line. The exit status is 1 if the command fails and 2 if the command line is
wrong. -/
def run (args : List String) : m UInt32 :=
  match Invocation.ofArgs args with
  | .error e => do
    host.complainLines ["error: " ++ e.message]
    return 2
  | .ok (.help lines) => do
    host.printLines lines
    return 0
  | .ok (.command c) => do
    match ← (c.run host).run with
    | .ok () => return 0
    | .error failure =>
      host.complainLines failure.report
      return 1

end PulseProcessor.CommandLine
