import PulseProcessor.Decimal.Rounding
import PulseProcessor.Json.Basic
import PulseProcessor.Text.Digits

/-!
# Numbers of a JSON text

The digits of a number are collected in a significand of 64 bits, and an exponent tells where the
point stands. Digits for which there is no room are dropped, so a long number is known by its
leading digits. Whether a number is too large for a double is asked of what has been collected.
-/

namespace PulseProcessor.Json

/-- A significand times a power of ten. -/
structure Scaled where
  significand : Nat := 0
  exponent : Int := 0
  deriving DecidableEq, Repr

namespace Scaled

/-- Multiplies with a power of ten. -/
def shift (x : Scaled) (e : Int) : Scaled := { x with exponent := x.exponent + e }

/-- Appends a digit, if it fits. -/
def push? (x : Scaled) (digit : Char) : Option Scaled :=
  let n := 10 * x.significand + (digit.toNat - '0'.toNat)
  if n < UInt64.size then some { x with significand := n } else none

/-- Takes up the digits in front of the point. From the first that does not fit on, a digit only
raises the exponent. -/
def whole (x : Scaled) : List Char → Scaled
  | [] => x
  | c :: cs =>
    match x.push? c with
    | some y => y.whole cs
    | none => x.shift (cs.length + 1)

/-- Takes up the digits behind the point, up to the first that does not fit. -/
def fraction (x : Scaled) : List Char → Scaled
  | [] => x
  | c :: cs =>
    match x.push? c with
    | some y => (y.shift (-1)).fraction cs
    | none => x

/-- Numbers from here on are rounded to infinity: half a unit above the largest double. -/
def doubleBound : Nat := (1 <<< 1024) - (1 <<< 970)

/-- The double nearest to a natural number, if doubles had no bound. -/
def nearestDouble (n : Nat) : Nat := Decimal.roundSignificant 53 n

/-- The greatest power of ten that is a double. -/
def maxPower : Nat := 308

/-- The number lies beyond every double. Significand and power are rounded before they are
multiplied. A significand of 64 bits needs a power above one to get there. -/
def exceedsDouble (x : Scaled) : Bool :=
  if x.significand = 0 ∨ x.exponent < 0 then false
  else if x.exponent > maxPower then true
  else doubleBound ≤ nearestDouble x.significand * nearestDouble (Nat.pow 10 x.exponent.toNat)

/-- The value of a number with a fraction or an exponent. -/
def toReal (x : Scaled) : Json := if x.exceedsDouble then .void else .real

/-- The value of a number with neither. Minus zero has no integer to stand for it, and longer
numbers than those of 64 bits are no integers either. -/
def toInteger (negative : Bool) (x : Scaled) : Json :=
  if x.exponent ≠ 0 then x.toReal
  else if ¬ negative then .integer x.significand
  else if x.significand = 0 ∨ x.significand > Text.signedBound then .real
  else .integer (-x.significand)

end Scaled

/-- The value of a run of decimal digits. -/
def decimal (cs : List Char) : Nat := cs.foldl (fun n c => 10 * n + (c.toNat - '0'.toNat)) 0

/-- The exponent of a number: nothing, or a mark, an optional sign and digits. -/
def exponent? : List Char → Option Int
  | [] => some 0
  | c :: cs =>
    if c ≠ 'e' ∧ c ≠ 'E' then none
    else
      let (negative, ds) := match cs with
        | '-' :: ds => (true, ds)
        | '+' :: ds => (false, ds)
        | ds => (false, ds)
      if ds.isEmpty ∨ ¬ ds.all Char.isDigit then none
      else some (if negative then -(decimal ds : Int) else decimal ds)

/-- The value of a word that has the form of a number. -/
def number? (word : List Char) : Option Json :=
  let (negative, cs) := match word with
    | '-' :: cs => (true, cs)
    | cs => (false, cs)
  let digits := cs.takeWhile Char.isDigit
  if digits.isEmpty ∨ (digits.length > 1 ∧ digits.head? = some '0') then none
  else
    let x := ({} : Scaled).whole digits
    match cs.dropWhile Char.isDigit with
    | [] => some (x.toInteger negative)
    | '.' :: more =>
      let fraction := more.takeWhile Char.isDigit
      if fraction.isEmpty then none
      else
        (exponent? (more.dropWhile Char.isDigit)).map fun e =>
          ((x.fraction fraction).shift e).toReal
    | more => (exponent? more).map fun e => (x.shift e).toReal

end PulseProcessor.Json
