/-!
# Digits

Numbers as texts of digits: a fixed count of digits in a given base, and the reading of an
unsigned number that has to stay below a bound.
-/

namespace PulseProcessor.Text

/-- The last `count` digits of `n` in the given base, most significant first. -/
def fixedDigits (base : Nat) : Nat → Nat → List Char
  | 0, _ => []
  | count + 1, n => fixedDigits base count (n / base) ++ [Nat.digitChar (n % base)]

@[simp] theorem length_fixedDigits (base count n : Nat) :
    (fixedDigits base count n).length = count := by
  induction count generalizing n with
  | zero => rfl
  | succ count ih => simp [fixedDigits, ih]

/-- A number with a `0x` mark and a fixed count of hexadecimal digits. -/
def hex (count n : Nat) : String := "0x" ++ String.ofList (fixedDigits 16 count n)

/-- A number with a `0b` mark and a fixed count of binary digits. -/
def bin (count n : Nat) : String := "0b" ++ String.ofList (fixedDigits 2 count n)

/-- The value of a character as a digit in bases up to sixteen; letters count in either case. -/
def digitValue (c : Char) : Option Nat :=
  if '0' ≤ c ∧ c ≤ '9' then some (c.toNat - '0'.toNat)
  else if 'a' ≤ c ∧ c ≤ 'f' then some (c.toNat - 'a'.toNat + 10)
  else if 'A' ≤ c ∧ c ≤ 'F' then some (c.toNat - 'A'.toNat + 10)
  else none

/-- The value of a character as a digit of the given base. -/
def digit? (base : Nat) (c : Char) : Option Nat := (digitValue c).filter (· < base)

/-- Why a text is not a number in range. -/
inductive NumberError where
  | empty
  | invalidDigit
  | tooLarge
  | tooSmall
  deriving DecidableEq, Repr

def NumberError.message : NumberError → String
  | empty => "cannot parse integer from empty string"
  | invalidDigit => "invalid digit found in string"
  | tooLarge => "number too large to fit in target type"
  | tooSmall => "number too small to fit in target type"

/-- Appends digits to a number read so far. The first character that is no digit, or that carries
the number to the bound, decides the error. -/
def readDigits (base bound : Nat) : List Char → Nat → Except NumberError Nat
  | [], n => .ok n
  | c :: cs, n =>
    match digit? base c with
    | none => .error .invalidDigit
    | some d =>
      if n * base + d < bound then readDigits base bound cs (n * base + d) else .error .tooLarge

/-- An unsigned number below a bound. One plus sign may stand in front. -/
def readUnsigned (base bound : Nat) : List Char → Except NumberError Nat
  | [] => .error .empty
  | ['+'] => .error .invalidDigit
  | '+' :: cs => readDigits base bound cs 0
  | cs => readDigits base bound cs 0

/-- Signed numbers of 64 bits stay below this. -/
def signedBound : Nat := 1 <<< 63

/-- A signed decimal number from `-bound` up to, but without, `bound`. -/
def readSigned (bound : Nat) : List Char → Except NumberError Int
  | ['-'] => .error .invalidDigit
  | '-' :: cs =>
    match readDigits 10 (bound + 1) cs 0 with
    | .ok n => .ok (-n)
    | .error .tooLarge => .error .tooSmall
    | .error e => .error e
  | cs => (readUnsigned 10 bound cs).map Int.ofNat

end PulseProcessor.Text
