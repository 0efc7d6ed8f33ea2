import PulseProcessor.Emulator.Semantics
import PulseProcessor.Listing.Reader
import PulseProcessor.Readout.Basic
import PulseProcessor.WordListing.Reader

/-!
# Failures of commands

Every way in which a command can fail, as a cause. A failure is reported as a chain of messages,
the outermost first and the cause of each behind it.
-/

namespace PulseProcessor.CommandLine

/-- Why a file cannot be read or written. -/
inductive FileFault where
  | missing
  | directory
  | notDirectory
  | nameTooLong
  /-- The contents are no text. -/
  | notText
  | other (text : String)
  deriving DecidableEq, Repr

def FileFault.message : FileFault → String
  | missing => "No such file or directory (os error 2)"
  | directory => "Is a directory (os error 21)"
  | notDirectory => "Not a directory (os error 20)"
  | nameTooLong => "File name too long (os error 36)"
  | notText => "stream did not contain valid UTF-8"
  | other text => text

/-- Why a command fails. -/
inductive Failure where
  | readListing (path : String) (fault : FileFault)
  | readMap (path : String) (fault : FileFault)
  | writeWords (path : String) (fault : FileFault)
  | writeListing (path : String) (fault : FileFault)
  /-- A file is no word listing. -/
  | words (path : String) (e : WordListing.Error)
  | listing (e : ListingError)
  | assembly (e : AssemblyError)
  | emulation (e : EmulatorError)
  | noReadout
  /-- The shot counter of the simulated board cannot count that far. -/
  | tooManyShots
  | unreachable (address : String) (e : DeviceError)
  | device (e : DeviceError)
  | readout (e : Readout.Error)
  /-- Listings that do not reassemble to the words of their programs. -/
  | mismatched (count : Nat)
  /-- The host has run out of patience. -/
  | interrupted
  deriving DecidableEq, Repr

/-- An error of a device and its cause, if it has one. -/
def deviceMessages (e : DeviceError) : List String :=
  match e with
  | .link fault => [e.message, fault.message]
  | _ => [e.message]

/-- A failure and its causes. -/
def Failure.messages : Failure → List String
  | readListing path fault => [s!"Failed to read listing {path}", fault.message]
  | readMap path fault => [s!"Failed to read register map {path}", fault.message]
  | writeWords path fault => [s!"Failed to write listing {path}", fault.message]
  | writeListing path fault => [s!"Failed to write {path}", fault.message]
  | words path e => s!"Failed to parse {path}" :: e.messages
  | listing e =>
    match e with
    | .assembly _ cause => [e.message, cause.message]
    | .syntaxError .. => [e.message]
  | assembly e => [e.message]
  | emulation e => [e.message]
  | noReadout => ["no readout channel selected"]
  | tooManyShots =>
    ["shot count exceeds counter width", "out of range integral type conversion attempted"]
  | unreachable address e => s!"Failed to connect to {address}" :: deviceMessages e
  | device e => deviceMessages e
  | readout (.hardware e) => deviceMessages e
  | readout e => [e.message]
  | mismatched count => [s!"{count} listings did not reassemble to the same words"]
  | interrupted => []

/-- Causes, each on a line of its own. Several causes are numbered. -/
def causeLines : List String → List String
  | [cause] => ["    " ++ cause]
  | causes => causes.zipIdx.map fun (cause, i) => s!"    {i}: {cause}"

/-- The report of a failure, line by line. -/
def Failure.report (f : Failure) : List String :=
  match f.messages with
  | [] => []
  | [message] => ["Error: " ++ message]
  | message :: causes => ["Error: " ++ message, "", "Caused by:"] ++ causeLines causes

end PulseProcessor.CommandLine
