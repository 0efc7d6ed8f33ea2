import PulseProcessor.Decimal.Rounding
import PulseProcessor.Text.Digits

/-!
# Fixed decimals

Floating-point numbers with a fixed count of decimals. A number is taken apart into an integer
times a power of two, and that exact value is what gets rounded.
-/

namespace PulseProcessor.Decimal

/-- What a floating-point number stands for. -/
inductive Value where
  /-- The mantissa times two to the power of the exponent. -/
  | finite (negative : Bool) (mantissa : Nat) (exponent : Int)
  | infinite (negative : Bool)
  | undefined
  deriving DecidableEq, Repr

/-- The value of a floating-point number, from its sign, exponent and fraction bits. -/
def Value.ofFloat (x : Float) : Value :=
  let bits := x.toBits.toNat
  let negative := bits.testBit 63
  let exponent : Nat := (bits >>> 52) % 2048
  let fraction : Nat := bits % (1 <<< 52)
  if exponent = 2047 then if fraction = 0 then infinite negative else undefined
  else if exponent = 0 then finite negative fraction (-1074)
  else finite negative ((1 <<< 52) + fraction) ((exponent : Int) - 1075)

/-- `mantissa * 2 ^ exponent` in units of the last of `places` decimals. -/
def units (places mantissa : Nat) (exponent : Int) : Nat :=
  roundDiv ((mantissa * Nat.pow 10 places) <<< exponent.toNat) (1 <<< (-exponent).toNat)

/-- A count of units with the point in front of the last `places` digits. -/
def pointed (places n : Nat) : String :=
  if places = 0 then toString n
  else s!"{n / Nat.pow 10 places}." ++ String.ofList (Text.fixedDigits 10 places n)

/-- A number with `places` decimals. The sign stays even if all digits are zero. -/
def fixed (places : Nat) (x : Float) : String :=
  let signed (negative : Bool) (text : String) : String := if negative then "-" ++ text else text
  match Value.ofFloat x with
  | .finite negative mantissa exponent =>
    signed negative (pointed places (units places mantissa exponent))
  | .infinite negative => signed negative "inf"
  | .undefined => "NaN"

end PulseProcessor.Decimal
