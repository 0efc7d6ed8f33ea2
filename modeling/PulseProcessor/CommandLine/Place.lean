import PulseProcessor.CommandLine.Failure

/-!
# Places

The tree of directories as a program sees it from its working directory. Of other directories only
those are known that every machine has.
-/

namespace PulseProcessor.CommandLine

/-- A place in the tree of directories. -/
inductive Place where
  | root
  /-- So many levels above the working directory. -/
  | ancestor (levels : Nat)
  | inside (directory : Place) (name : String)
  deriving DecidableEq, Repr

namespace Place

def working : Place := ancestor 0

/-- The device that holds nothing, and keeps nothing that is written to it. -/
def nullDevice : Place := inside (inside root "dev") "null"

/-- The directory around a place. The root is its own. -/
def parent : Place → Place
  | root => root
  | ancestor levels => ancestor (levels + 1)
  | inside directory _ => directory

def isDirectory : Place → Bool
  | root | ancestor _ => true
  | inside directory name => directory == root && (name == "dev" || name == "tmp")

/-- Bytes that a name may have. -/
def maxName : Nat := 255

/-- Where a name leads to from a directory. -/
def enter (p : Place) (name : String) : Except FileFault Place :=
  if name = ".." then .ok p.parent
  else if name.utf8ByteSize > maxName then .error .nameTooLong
  else .ok (p.inside name)

end Place
end PulseProcessor.CommandLine
