import PulseProcessor.Board.Simulated
import PulseProcessor.CommandLine.Failure

/-!
# Hosts

What commands need of the machine they run on. A host acts in a monad of its own choice, so that
the same commands run on a real machine and on a modelled one.

A host also decides how the threads of a command take turns, and how long a command may wait.
-/

namespace PulseProcessor.CommandLine

/-- Files, a terminal, a clock and a network. -/
structure Host (m : Type → Type) where
  readText : String → m (Except FileFault String)
  writeText (path text : String) : m (Except FileFault Unit)
  /-- Prints results. -/
  print : String → m Unit
  /-- Prints errors. -/
  complain : String → m Unit
  /-- Nanoseconds since some moment in the past. -/
  clock : m Nat
  /-- Waits for so many microseconds. -/
  pause : Nat → m Unit
  /-- Turns that another thread gets before the command goes on, if it pauses for so many
  microseconds behind each of them. -/
  turns : Nat → m Nat
  /-- Rounds of waiting after which the host interrupts a command. -/
  patience : m Nat
  /-- The board whose agent serves an address, if there is one. -/
  board? : String → m (Option Board)

/-- A command in progress: it acts on a host, and may fail. -/
abbrev CommandT (m : Type → Type) := ExceptT Failure m

namespace Host

variable {m : Type → Type} [Monad m]

def printLine (host : Host m) (line : String) : m Unit := host.print (line ++ "\n")

def printLines (host : Host m) (lines : List String) : m Unit := lines.forM host.printLine

def complainLines (host : Host m) (lines : List String) : m Unit :=
  lines.forM fun line => host.complain (line ++ "\n")

end Host

/-- Goes on with a value, or fails with an error. -/
def attempt {m : Type → Type} [Monad m] {ε α : Type} (failure : ε → Failure) :
    Except ε α → CommandT m α
  | .ok a => pure a
  | .error e => throw (failure e)

end PulseProcessor.CommandLine
