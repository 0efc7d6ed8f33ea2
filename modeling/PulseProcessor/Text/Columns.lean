/-!
# Columns and lists

How values are set out in reports: flush right in columns, and as lists in brackets.
-/

namespace PulseProcessor.Text

/-- Fills a text up with blanks on its left. A longer text stays as it is. -/
def alignRight (width : Nat) (s : String) : String :=
  String.ofList (List.replicate (width - s.length) ' ') ++ s

/-- Values in brackets, with commas between them. -/
def bracketed (values : List String) : String := "[" ++ ", ".intercalate values ++ "]"

end PulseProcessor.Text
