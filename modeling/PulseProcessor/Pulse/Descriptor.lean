import PulseProcessor.Assembly.Error
import PulseProcessor.Json.Printer
import PulseProcessor.Json.Record

/-!
# Pulses

A pulse is described by the values of its registers and the shape of its envelope. The mode word
packs the output flags above a 16-bit length.
-/

namespace PulseProcessor

/-- Signal source of an output channel. -/
inductive OutputSelect where
  /-- Envelope times oscillator. -/
  | product
  /-- Oscillator only. -/
  | dds
  /-- Envelope only. -/
  | input
  | zero
  deriving DecidableEq, Repr

namespace OutputSelect

def code : OutputSelect → Nat
  | product => 0
  | dds => 1
  | input => 2
  | zero => 3

def ofName? : String → Option OutputSelect
  | "product" => some product
  | "dds" => some dds
  | "input" => some input
  | "zero" => some zero
  | _ => none

end OutputSelect

/-- Shape of a pulse. -/
inductive PulseStyle where
  /-- Constant amplitude from the oscillator. -/
  | constant
  /-- An envelope from memory. -/
  | arbitrary
  /-- A ramp up, a constant plateau and a ramp down; the two ramps have `ramp` samples. -/
  | flatTop (ramp : UInt32)
  deriving DecidableEq, Repr

/-- One pulse on one channel. Frequency, phase and gain are raw register values. -/
structure Pulse where
  channel : UInt8
  name : String
  style : PulseStyle
  freq : Int
  phase : Int
  gain : Int
  /-- Address in envelope memory. -/
  addr : Int := 0
  /-- Length of the plateau of a flat-top pulse, of the whole pulse otherwise. -/
  length : UInt32
  /-- Resets the oscillator's phase at the start. -/
  resetPhase : Bool := false
  /-- Holds the last sample after the pulse. -/
  holdLast : Bool := true
  /-- Repeats the pulse until the next one. -/
  periodic : Bool := false
  deriving DecidableEq, Repr

/-- The mode word, if the length has 16 bits. -/
def modeWord? (resetPhase holdLast periodic : Bool) (output : OutputSelect) (length : Nat) :
    Option Nat :=
  if length < maxLength then
    let flags :=
      16 * resetPhase.toNat + 8 * holdLast.toNat + 4 * periodic.toNat + output.code
    some (flags * maxLength + length)
  else none

namespace Pulse

/-- Samples of one ramp of a flat-top pulse. -/
def rampHalf (ramp : UInt32) : Nat := ramp.toNat / 2

/-- Cycles for which a pulse occupies its channel. -/
def duration (p : Pulse) : Int :=
  match p.style with
  | .flatTop ramp => p.length.toNat + 2 * rampHalf ramp
  | _ => p.length.toNat

/-- The mode word of a segment of the pulse. -/
def mode (p : Pulse) (output : OutputSelect) (length : Nat) : Except AssemblyError Int :=
  match modeWord? p.resetPhase p.holdLast p.periodic output length with
  | some w => .ok w
  | none => .error (.invalidPulse p.name (.length length))

/-! ### As JSON -/

/-- A style by its name, or by its place among the three. -/
def styleTag? : Json → Option String
  | .string s => some s
  | .integer 0 => some "const"
  | .integer 1 => some "arb"
  | .integer 2 => some "flat_top"
  | _ => none

/-- The style in an object's members. Only a flat-top pulse has a ramp length; for the others it
is a member like any unknown one. -/
def styleOfMembers? (members : List (String × Json)) : Option PulseStyle := do
  match ← styleTag? (← (← Json.member? members "style")) with
  | "const" => return .constant
  | "arb" => return .arbitrary
  | "flat_top" => return .flatTop (← Json.word32? (← (← Json.member? members "ramp_length")))
  | _ => none

/-- How deep the text of a pulse may nest. -/
def maxDepth : Nat := 127

/-- Reads a pulse. The style's members stand among the others, so the object is kept whole until
the style is known; therefore its unknown members have to denote values too. -/
def ofJson? (j : Json) : Option Pulse := do
  let members ← j.object?
  if j.hasVoid ∨ j.depth > maxDepth then none
  let get (name : String) : Option (Option Json) := Json.member? members name
  return {
    channel := ← Json.required (← get "channel") Json.byte?
    name := ← Json.required (← get "name") Json.string?
    freq := ← Json.required (← get "freq") Json.int64?
    phase := ← Json.required (← get "phase") Json.int64?
    gain := ← Json.required (← get "gain") Json.int64?
    addr := ← Json.optional (← get "addr") 0 Json.int64?
    length := ← Json.required (← get "length") Json.word32?
    resetPhase := ← Json.optional (← get "phrst") false Json.bool?
    holdLast := ← Json.optional (← get "stdysel") true Json.bool?
    periodic := ← Json.optional (← get "periodic") false Json.bool?
    style := ← styleOfMembers? members }

def styleMembers : PulseStyle → List (String × Json)
  | .constant => [("style", .string "const")]
  | .arbitrary => [("style", .string "arb")]
  | .flatTop ramp => [("style", .string "flat_top"), ("ramp_length", .integer ramp.toNat)]

def toJson (p : Pulse) : Json :=
  .object <|
    [("channel", .integer p.channel.toNat), ("name", .string p.name)] ++ styleMembers p.style ++
    [("freq", .integer p.freq), ("phase", .integer p.phase), ("gain", .integer p.gain),
     ("addr", .integer p.addr), ("length", .integer p.length.toNat),
     ("phrst", .bool p.resetPhase), ("stdysel", .bool p.holdLast), ("periodic", .bool p.periodic)]

end Pulse
end PulseProcessor
