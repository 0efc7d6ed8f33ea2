import PulseProcessor.Assembly.Program
import PulseProcessor.Text.Digits
import PulseProcessor.Text.Path

/-!
# Word listings

A word listing holds the words of a program as text, one to a line, in hexadecimal or in binary
digits. The name of a file says which.
-/

namespace PulseProcessor
namespace WordListing

/-- How words are written. -/
inductive Format where
  | hex
  | bin
  deriving DecidableEq, Repr

namespace Format

/-- A word with its mark and all its digits. -/
def word : Format → Word → String
  | hex, w => Text.hex 16 w.toNat
  | bin, w => Text.bin 64 w.toNat

/-- The format that the name of a file asks for. -/
def ofPath (path : String) : Format :=
  if Text.fileExtension? path = some "bin" then bin else hex

end Format

/-- The listing of words: every line is ended. -/
def render (format : Format) (words : List Word) : String :=
  String.join (words.map (format.word · ++ "\n"))

end WordListing

/-- The words of a program, a line each; the last line is not ended. -/
def Program.wordText (p : Program) (format : WordListing.Format) : Except AssemblyError String :=
  p.encode.map fun words => "\n".intercalate (words.map format.word)

end PulseProcessor
