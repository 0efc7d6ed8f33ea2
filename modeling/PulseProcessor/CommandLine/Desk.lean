import PulseProcessor.CommandLine.Host
import PulseProcessor.CommandLine.Place
import PulseProcessor.Text.Path

/-!
# Desks

A modelled machine: files, a clock that runs only while somebody waits, boards within reach, and a
scheduler that follows a script. Commands run on it are functions of its state.
-/

namespace PulseProcessor.CommandLine

/-- The state of a modelled machine. -/
structure Desk where
  /-- The text of each file. -/
  files : List (Place × String) := []
  /-- Boards by the address of their agent. -/
  boards : List (String × Board) := []
  printed : String := ""
  complaints : String := ""
  /-- Nanoseconds. -/
  time : Nat := 0
  /-- The turns that other threads get, as often as they are asked for; one each, then. -/
  script : List Nat := []
  /-- Rounds of waiting. -/
  patience : Nat := 1000000000000

namespace Desk

/-- A machine with files in the working directory. -/
def ofFiles (files : List (String × String)) : Desk :=
  { files := files.map fun (name, text) => (Place.working.inside name, text) }

/-! ### Files -/

/-- The text of a file, if there is one. -/
def text? (d : Desk) (p : Place) : Option String :=
  if p = .nullDevice then some "" else d.files.lookup p

/-- Gives a file a new text. -/
def put (d : Desk) (p : Place) (text : String) : Desk :=
  if p = .nullDevice then d else { d with files := (p, text) :: d.files }

/-! ### Paths -/

/-- A path has fewer bytes than this. -/
def maxPath : Nat := 4096

/-- Insists on a directory. -/
def directory (d : Desk) (p : Place) : Except FileFault Place :=
  if p.isDirectory then .ok p
  else .error (if (d.text? p).isSome then .notDirectory else .missing)

/-- Where names lead to, all of them names of directories. -/
def walk (d : Desk) (p : Place) (names : List String) : Except FileFault Place :=
  names.foldlM (fun p name => p.enter name >>= d.directory) p

/-- The directory in which a path looks for its last name, and that name. A path that ends in a
dot names a directory throughout. -/
def resolve (d : Desk) (path : String) : Except FileFault (Place × Option String) := do
  if path.isEmpty then throw .missing
  if path.utf8ByteSize ≥ maxPath then throw .nameTooLong
  let start := if path.startsWith "/" then .root else .working
  let names := (Text.pathNames path).map String.ofList
  if Text.endsInDot path then return (← d.walk start names, none)
  else return (← d.walk start names.dropLast, names.getLast?)

/-- The text of the file that a path leads to. Behind a slash there has to be a directory. -/
def read (d : Desk) (path : String) : Except FileFault String := do
  let (p, some name) ← d.resolve path | throw .directory
  let q ← p.enter name
  if q.isDirectory then throw .directory
  match d.text? q with
  | none => throw .missing
  | some text => if Text.endsInSlash path then throw .notDirectory else return text

/-- Writes the file that a path leads to. A path that ends in a slash asks for a directory, whether
or not its last name is known. -/
def write (d : Desk) (path text : String) : Except FileFault Desk := do
  let (p, some name) ← d.resolve path | throw .directory
  if Text.endsInSlash path then throw .directory
  let q ← p.enter name
  if q.isDirectory then throw .directory
  return d.put q text

/-- The machine as a host. -/
def host : Host (StateM Desk) where
  readText path := return (← get).read path
  writeText path text := do
    match (← get).write path text with
    | .ok d => set d; return .ok ()
    | .error fault => return .error fault
  print text := modify fun d => { d with printed := d.printed ++ text }
  complain text := modify fun d => { d with complaints := d.complaints ++ text }
  clock := return (← get).time
  pause micros := modify fun d => { d with time := d.time + 1000 * micros }
  turns _ := modifyGet fun d => (d.script.headD 1, { d with script := d.script.tail })
  patience := return (← get).patience
  board? address := return (← get).boards.lookup address

end Desk
end PulseProcessor.CommandLine
