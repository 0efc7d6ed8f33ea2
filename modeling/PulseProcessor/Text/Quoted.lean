import PulseProcessor.Text.Escaped

/-!
# Quoted texts

Messages show a piece of input between double quotes. Quotes, backslashes and characters without a
glyph are written as escapes, so that a message is one line whatever the input holds.
-/

namespace PulseProcessor.Text

/-- A code point as an escape: hexadecimal digits in braces. -/
def codePoint (n : Nat) : List Char :=
  ['\\', 'u', '\x7b'] ++ Nat.toDigits 16 n ++ ['\x7d']

/-- One character as it stands between quotes. -/
def quoteChar (c : Char) : List Char :=
  match c with
  | '"' => ['\\', '"']
  | '\\' => ['\\', '\\']
  | '\n' => ['\\', 'n']
  | '\r' => ['\\', 'r']
  | '\t' => ['\\', 't']
  | _ =>
    let n := c.toNat
    if n = 0 then ['\\', '0']
    else if n < 0x20 ∨ n = 0x7F ∨ (0x80 ≤ n ∧ isEscaped n) then codePoint n
    else [c]

/-- A text between quotes. -/
def quote (s : String) : String :=
  String.ofList ('"' :: s.toList.flatMap quoteChar ++ ['"'])

end PulseProcessor.Text
