/-!
# Paths

What follows from the text of a path alone: the names on it, how it ends, and the extension of the
name it ends in.
-/

namespace PulseProcessor.Text

/-- The parts of a text between the places where a character stands. -/
def splitAtChar (sep : Char) : List Char → List (List Char)
  | [] => [[]]
  | c :: cs =>
    match splitAtChar sep cs with
    | [] => [[c]]
    | part :: rest => if c = sep then [] :: part :: rest else (c :: part) :: rest

/-- The path ends in a slash. -/
def endsInSlash (path : String) : Bool := path.endsWith "/"

/-- The path ends in a single dot, or in one with nothing but slashes behind it. -/
def endsInDot (path : String) : Bool :=
  ((splitAtChar '/' path.toList).filter (· != [])).getLast? == some ['.']

/-- The names on a path. Empty parts and single dots name nothing. -/
def pathNames (path : String) : List (List Char) :=
  (splitAtChar '/' path.toList).filter fun part => part != [] && part != ['.']

/-- The last name on a path, unless it leads upwards. -/
def fileName? (path : String) : Option (List Char) :=
  (pathNames path).getLast?.filter (· != ['.', '.'])

/-- What stands behind the last dot of a file's name. A name whose only dot is its first character
has no extension. -/
def fileExtension? (path : String) : Option String := do
  let name := (← fileName? path).reverse
  match name.dropWhile (· != '.') with
  | [] | [_] => none
  | _ => return String.ofList (name.takeWhile (· != '.')).reverse

end PulseProcessor.Text
