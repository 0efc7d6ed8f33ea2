import PulseProcessor.Emulator.Semantics

/-!
# Running encoded programs

An emulator executes words until the program ends, fails, or has used up its steps. Steps are
counted when an instruction has been decoded, so a word that is no instruction costs none, while
one that fails in execution does.
-/

namespace PulseProcessor

open Isa (decode?)

/-- Steps after which a program is given up if its caller sets no other limit. -/
def defaultStepLimit : Nat := 1 <<< 24

/-- A program in execution. -/
structure Emulator where
  words : Array Word
  machine : Machine := {}
  /-- Instructions executed so far. -/
  steps : Nat := 0
  limit : Nat := defaultStepLimit

namespace Emulator

def ofWords (words : List Word) (limit : Nat := defaultStepLimit) : Emulator :=
  { words := words.toArray, limit }

/-- The machine after the instruction at its program counter, with the steps that took. -/
def advance (e : Emulator) : Except EmulatorError Machine × Nat :=
  if e.limit ≤ e.steps then (.error (.stepLimit e.limit), 0)
  else
    match e.words[e.machine.pc]? with
    | none => (.error (.pcOutOfRange e.machine.pc), 0)
    | some word =>
      match decode? word with
      | none => (.error (.invalidOpcode e.machine.pc word), 0)
      | some d => ((e.machine.effect d).map e.machine.apply, 1)

/-- Executes one instruction. The answer says whether the program goes on. -/
def step (e : Emulator) : Except EmulatorError Bool × Emulator :=
  if e.machine.halted then (.ok false, e)
  else
    match e.advance with
    | (.ok m, n) => (.ok (! m.halted), { e with machine := m, steps := e.steps + n })
    | (.error err, n) => (.error err, { e with steps := e.steps + n })

theorem advance_ok {e : Emulator} {m : Machine} {n : Nat} (h : e.advance = (.ok m, n)) :
    e.steps < e.limit ∧ n = 1 := by
  unfold advance at h
  split at h
  · simp at h
  · split at h
    · simp at h
    · split at h <;> simp_all

/-- A step of a running program that succeeds brings it closer to its limit. -/
theorem remaining_step {e e' : Emulator} {b : Bool} (hrun : e.machine.halted = false)
    (h : e.step = (.ok b, e')) : e'.limit - e'.steps < e.limit - e.steps := by
  unfold step at h
  rw [hrun] at h
  simp only [Bool.false_eq_true, if_false] at h
  split at h
  · rename_i m n hadv
    obtain ⟨hlt, hn⟩ := advance_ok hadv
    simp only [Prod.mk.injEq] at h
    simp only [← h.2, hn]
    omega
  · simp at h

/-- Executes instructions until the program ends or fails. -/
def run (e : Emulator) : Except EmulatorError Unit × Emulator :=
  if hrun : e.machine.halted then (.ok (), e)
  else
    match hstep : e.step with
    | (.error err, e') => (.error err, e')
    | (.ok _, e') =>
      have := remaining_step (by simpa using hrun) hstep
      e'.run
termination_by e.limit - e.steps

end Emulator
end PulseProcessor
