import PulseProcessor.Text.Digits
import PulseProcessor.Text.Path

/-!
# Grammar of command lines

A command has parameters, each of which changes the command's settings, and at most one operand.
Arguments are read from left to right; the first one that is wrong, or that asks for help, ends
the reading.
-/

namespace PulseProcessor.CommandLine

/-- What a parameter does to the settings. -/
inductive Action (σ : Type) where
  | flag (set : σ → σ)
  /-- Takes one value, for which `name` stands in help texts, and may refuse it. -/
  | value (name : String) (set : String → σ → Option σ)
  /-- Takes values that are separated by commas, and may be repeated. `set` is given all values
  so far. -/
  | values (name : String) (set : List String → σ → Option σ)

/-- A named parameter of a command. -/
structure Parameter (σ : Type) where
  /-- The name behind two dashes. -/
  long : String
  /-- The letter behind one dash. -/
  short : Option Char := none
  action : Action σ
  summary : String := ""

/-- The required operand of a command. -/
structure Operand (σ : Type) where
  /-- What stands for it in help texts. -/
  name : String
  set : String → σ → Option σ

/-- What can stand behind the name of a command. -/
structure Grammar (σ : Type) where
  parameters : List (Parameter σ)
  operand : Option (Operand σ) := none

/-- What is wrong with a command line. -/
inductive UsageError where
  | missingCommand
  | unknownCommand (name : String)
  | unknownParameter (text : String)
  | missingValue (parameter : String)
  /-- A flag that is given a value. -/
  | surplusValue (parameter : String)
  | invalidValue (name value : String)
  | repeated (parameter : String)
  | surplusOperand (text : String)
  | missingOperand (name : String)
  deriving DecidableEq, Repr

def UsageError.message : UsageError → String
  | missingCommand => "a subcommand is required"
  | unknownCommand name => s!"unrecognized subcommand '{name}'"
  | unknownParameter text => s!"unexpected argument '{text}' found"
  | missingValue parameter => s!"a value is required for '--{parameter}' but none was supplied"
  | surplusValue parameter => s!"'--{parameter}' takes no value"
  | invalidValue name value => s!"invalid value '{value}' for '{name}'"
  | repeated parameter => s!"the argument '--{parameter}' cannot be used multiple times"
  | surplusOperand text => s!"unexpected argument '{text}' found"
  | missingOperand name => s!"the required argument <{name}> was not provided"

/-- Why the reading of arguments ends early. -/
inductive Stop where
  /-- Help was asked for. -/
  | help
  | wrong (e : UsageError)
  deriving DecidableEq, Repr

/-- How far the reading of arguments has come. -/
structure Reading (σ : Type) where
  settings : σ
  /-- The parameters given so far, by long name, with their values. -/
  given : List (String × List String) := []
  /-- A parameter that waits for its value. -/
  expecting : Option (Parameter σ) := none
  /-- Behind two dashes alone there are only operands. -/
  operandsOnly : Bool := false
  operandGiven : Bool := false

/-- An argument with the form of a parameter. A dash alone has not. -/
def hasDash (arg : String) : Bool := arg.startsWith "-" && arg != "-"

namespace Reading

variable {σ : Type}

/-- Takes up an occurrence of a parameter. A flag takes no heed of the value. -/
def accept (x : Reading σ) (p : Parameter σ) (value : String) : Except Stop (Reading σ) := do
  let x := { x with expecting := none }
  let earlier := x.given.lookup p.long
  let unique : Except Stop Unit :=
    if earlier.isSome then .error (.wrong (.repeated p.long)) else .ok ()
  let valid (settings : Option σ) : Except Stop σ :=
    match settings with
    | some s => .ok s
    | none => .error (.wrong (.invalidValue s!"--{p.long}" value))
  match p.action with
  | .flag set =>
    unique
    return { x with settings := set x.settings, given := (p.long, []) :: x.given }
  | .value _ set =>
    unique
    return { x with settings := ← valid (set value x.settings)
                    given := (p.long, [value]) :: x.given }
  | .values _ set =>
    let parts := (Text.splitAtChar ',' value.toList).map String.ofList
    let values := earlier.getD [] ++ parts
    return { x with settings := ← valid (set values x.settings)
                    given := (p.long, values) :: x.given }

/-- Takes up an argument that is no parameter. -/
def acceptOperand (g : Grammar σ) (x : Reading σ) (text : String) : Except Stop (Reading σ) :=
  match g.operand with
  | none => .error (.wrong (.surplusOperand text))
  | some operand =>
    if x.operandGiven then .error (.wrong (.surplusOperand text))
    else
      match operand.set text x.settings with
      | none => .error (.wrong (.invalidValue operand.name text))
      | some settings => .ok { x with settings, operandGiven := true }

/-- Takes up what stands behind two dashes: a name, perhaps with a value behind `=`. -/
def acceptLong (g : Grammar σ) (x : Reading σ) (text : List Char) : Except Stop (Reading σ) := do
  let name := String.ofList (text.takeWhile (· != '='))
  let value := text.dropWhile (· != '=')
  if name = "help" then
    throw (if value.isEmpty then .help else .wrong (.surplusValue name))
  match g.parameters.find? (·.long == name) with
  | none => throw (.wrong (.unknownParameter s!"--{name}"))
  | some p =>
    match p.action, value with
    | .flag _, [] => x.accept p ""
    | .flag _, _ => throw (.wrong (.surplusValue name))
    | _, [] => return { x with expecting := some p }
    | _, _ :: v => x.accept p (String.ofList v)

/-- Takes up the letters behind one dash. The first that stands for a parameter with a value takes
what follows as the value, without an `=` in front. -/
def acceptLetters (g : Grammar σ) (x : Reading σ) : List Char → Except Stop (Reading σ)
  | [] => .ok x
  | 'h' :: _ => .error .help
  | c :: rest =>
    match g.parameters.find? (·.short == some c) with
    | none => .error (.wrong (.unknownParameter s!"-{c}"))
    | some p =>
      match p.action, rest with
      | .flag _, rest => do (← x.accept p "").acceptLetters g rest
      | _, [] => .ok { x with expecting := some p }
      | _, '=' :: v => x.accept p (String.ofList v)
      | _, v => x.accept p (String.ofList v)

/-- Takes up an argument. One with a dash in front is no value of the parameter before it. -/
def next (g : Grammar σ) (x : Reading σ) (arg : String) : Except Stop (Reading σ) :=
  if x.operandsOnly then x.acceptOperand g arg
  else
    match x.expecting with
    | some p =>
      if hasDash arg then .error (.wrong (.missingValue p.long)) else x.accept p arg
    | none =>
      if hasDash arg then
        match arg.toList with
        | ['-', '-'] => .ok { x with operandsOnly := true }
        | '-' :: '-' :: text => x.acceptLong g text
        | letters => x.acceptLetters g (letters.drop 1)
      else x.acceptOperand g arg

/-- What is missing behind the last argument. -/
def finish (g : Grammar σ) (x : Reading σ) : Except Stop σ :=
  match x.expecting, g.operand with
  | some p, _ => .error (.wrong (.missingValue p.long))
  | none, some operand =>
    if x.operandGiven then .ok x.settings else .error (.wrong (.missingOperand operand.name))
  | none, none => .ok x.settings

end Reading

/-- The settings after all arguments. -/
def Grammar.read {σ : Type} (g : Grammar σ) (settings : σ) (args : List String) :
    Except Stop σ := do
  (← args.foldlM (Reading.next g) { settings }).finish g

/-! ### Parts of grammars -/

namespace Parameter

variable {σ τ : Type}

/-- A parameter of a part of the settings as a parameter of the whole. -/
def within (p : Parameter σ) (get : τ → σ) (put : σ → τ → τ) : Parameter τ :=
  let lift (set : σ → Option σ) (t : τ) : Option τ := (set (get t)).map (put · t)
  { long := p.long, short := p.short, summary := p.summary
    action := match p.action with
      | .flag set => .flag fun t => put (set (get t)) t
      | .value name set => .value name fun v => lift (set v)
      | .values name set => .values name fun vs => lift (set vs) }

end Parameter

/-! ### Values -/

/-- A path. The empty text names no file. -/
def path? (s : String) : Option String := if s.isEmpty then none else some s

/-- A signed number of 64 bits. -/
def int64? (s : String) : Option Int := (Text.readSigned Text.signedBound s.toList).toOption

/-- A number of 64 bits without a sign. -/
def natural? (s : String) : Option Nat := (Text.readUnsigned 10 UInt64.size s.toList).toOption

/-- A number from zero up to, but without, a bound of no more than 32 bits. It is read as a signed
one, so that zero may have a sign. -/
def bounded? (bound : Nat) (s : String) : Option Nat := do
  let v ← int64? s
  if 0 ≤ v ∧ v < bound then some v.toNat else none

def word32? (s : String) : Option UInt32 := (bounded? UInt32.size s).map UInt32.ofNat

def byte? (s : String) : Option UInt8 := (bounded? UInt8.size s).map UInt8.ofNat

end PulseProcessor.CommandLine
