import Mathlib.Algebra.Group.Int.Defs
import PulseProcessor.Proofs.Emulator.Bounds
import PulseProcessor.Proofs.Emulator.Failure

/-! # Emulators stay well formed

An emulator takes any list of words, and is called to step and to run in any order.  What a call of
`step` can come to is said once (`Emulator.stepped`), and a call of `run` is so many calls of
`step` (`Emulator.exists_run_eq`).  With the bounds on what a word can reach, register 0 stays zero
and time keeps up with the steps, whatever happens (`Emulator.wellBehaved`).
-/

namespace PulseProcessor

open Isa (Decoded decode?)

/-! ### Machines -/

namespace Machine

variable {s : Machine} {d : Decoded} {e : Effect} {b : Nat}

/-- No more than one register, or one word of data memory, is another one. -/
def DiffersInOne (s s' : Machine) : Prop :=
  (s'.memory = s.memory ∧ ∃ k, ∀ j : Nat, j ≠ k → s'.registers[j]? = s.registers[j]?) ∨
    (s'.registers = s.registers ∧ ∃ k, ∀ j : Nat, j ≠ k → s'.memory[j]? = s.memory[j]?)

/-- Register 0 of every page is zero. -/
def ZeroRegisters (s : Machine) : Prop := ∀ page < pageCount, s.read page 0 = 0

/-- The time offset and the times of all events are at most `b`, before or after zero. -/
structure TimesWithin (s : Machine) (b : Nat) : Prop where
  offset : s.timeOffset.natAbs ≤ b
  events : ∀ e ∈ s.events, e.time.natAbs ≤ b

theorem DiffersInOne.refl (s : Machine) : s.DiffersInOne s := .inl ⟨rfl, 0, fun _ _ => rfl⟩

theorem differsInOne_write (s : Machine) (page reg : Nat) (v : UInt32) :
    s.DiffersInOne (s.write page reg v) := by
  refine .inl ⟨write_memory, slot page reg, fun j hj => ?_⟩
  unfold write
  split
  · rfl
  · exact Vector.getElem?_set_ne (slot page reg).2 hj.symm

/-- **An instruction writes one place at most.** -/
theorem differsInOne_apply (s : Machine) (e : Effect) : s.DiffersInOne (s.apply e) := by
  cases e with
  | nothing | jump | advance | emit | halt => exact .refl s
  | write page reg v => exact differsInOne_write { s with pc := s.pc + 1 } page reg v
  | countedJump page reg v target => exact differsInOne_write { s with pc := target } page reg v
  | store addr h v => exact .inr ⟨rfl, addr, fun j hj => Vector.getElem?_set_ne h hj.symm⟩

theorem events_apply (s : Machine) (e : Effect) :
    (s.apply e).events = s.events ∨ ∃ x, (s.apply e).events = s.events.push x := by
  cases e with
  | nothing | jump | advance | halt | store => exact .inl rfl
  | write | countedJump => exact .inl write_events
  | emit x => exact .inr ⟨x, rfl⟩

theorem pc_apply (h : e.Within s d) : (s.apply e).pc = s.pc + 1 ∨ d.Targets (s.apply e).pc := by
  cases e with
  | nothing | advance | emit | halt | store => exact .inl rfl
  | write => exact .inl write_pc
  | jump => exact .inr h
  | countedJump page reg v target =>
    have hpc : (s.apply (.countedJump page reg v target)).pc = target := write_pc
    rw [hpc]
    exact .inr h.2

/-- The numbers that words name are in range, so none but 0 itself can stand for register 0. -/
theorem ZeroRegisters.write {page reg : Nat} {v : UInt32} (hs : s.ZeroRegisters)
    (h : d.Names page reg) : (s.write page reg v).ZeroRegisters := by
  intro page' hpage'
  obtain ⟨hpage, hreg⟩ := h.lt
  rw [read_write hpage hreg hpage' (by decide), if_neg fun h => h.1 h.2.2]
  exact hs page' hpage'

theorem ZeroRegisters.apply (hs : s.ZeroRegisters) (h : e.Within s d) :
    (s.apply e).ZeroRegisters := by
  cases e with
  | nothing | jump | advance | emit | halt | store => exact hs
  | write => exact ZeroRegisters.write (s := { s with pc := s.pc + 1 }) hs h
  | countedJump page reg v target => exact ZeroRegisters.write (s := { s with pc := target }) hs h.1

theorem TimesWithin.mono {b' : Nat} (hs : s.TimesWithin b) (hle : b ≤ b') : s.TimesWithin b' where
  offset := Nat.le_trans hs.offset hle
  events e he := Nat.le_trans (hs.events e he) hle

/-- **One instruction moves times by 32 bits at most.** -/
theorem TimesWithin.apply (hs : s.TimesWithin b) (h : e.Within s d) :
    (s.apply e).TimesWithin (b + (2 ^ 32 - 1)) := by
  have hmono := hs.mono (Nat.le_add_right b (2 ^ 32 - 1))
  cases e with
  | nothing | jump | halt | store => exact ⟨hmono.offset, hmono.events⟩
  | write | countedJump =>
    refine ⟨?_, ?_⟩
    · simpa only [Machine.apply, write_timeOffset] using hmono.offset
    · simpa only [Machine.apply, write_events] using hmono.events
  | advance dt =>
    refine ⟨?_, hmono.events⟩
    have hoffset := hs.offset
    simp only [Effect.Within] at h
    simp only [Machine.apply]
    omega
  | emit x =>
    refine ⟨hmono.offset, fun y hy => ?_⟩
    rcases Array.mem_push.1 hy with hy | rfl
    · exact hmono.events y hy
    · have hoffset := hs.offset
      simp only [Effect.Within] at h
      omega

end Machine

/-! ### Single steps -/

namespace Emulator

variable {e : Emulator}

/-- What a call of `step` can come to. -/
inductive Stepped (e : Emulator) : Except EmulatorError Bool × Emulator → Prop where
  /-- The program has ended before, and nothing happens. -/
  | stopped (hhalt : e.machine.halted = true) : Stepped e (.ok false, e)
  /-- There is no step left, or nothing to execute. -/
  | unable (err : EmulatorError) (hrun : e.machine.halted = false) : Stepped e (.error err, e)
  /-- An instruction has failed, and counts as executed. -/
  | failed (err : EmulatorError) (hrun : e.machine.halted = false) (hlimit : e.steps < e.limit) :
    Stepped e (.error err, { e with steps := e.steps + 1 })
  /-- An instruction has been executed. -/
  | executed (word : Word) (d : Decoded) (eff : Effect) (hrun : e.machine.halted = false)
    (hlimit : e.steps < e.limit) (hword : e.words[e.machine.pc]? = some word)
    (hd : decode? word = some d) (heff : e.machine.effect d = .ok eff) :
    Stepped e (.ok (! (e.machine.apply eff).halted),
      { e with machine := e.machine.apply eff, steps := e.steps + 1 })

theorem stepped (e : Emulator) : e.Stepped e.step := by
  cases hrun : e.machine.halted with
  | true =>
    rw [step, if_pos hrun]
    exact .stopped hrun
  | false =>
    rcases e.fails_or_executes with ⟨err, hfails⟩ | ⟨word, d, eff, hlimit, hword, hd, heff⟩
    · rw [hfails.step_eq hrun]
      cases hfails with
      | limit | place | opcode => exact .unable _ hrun
      | effect hlimit _ _ heff =>
        rw [Machine.cost_of_effect heff]
        exact .failed err hrun hlimit
    · rw [step_of_decode? hrun hlimit hword hd, heff]
      exact .executed word d eff hrun hlimit hword hd heff

/-- **A call of `step` changes little.** -/
structure SmallStep (e : Emulator) : Prop where
  words : e.step.2.words = e.words
  limit : e.step.2.limit = e.limit
  /-- At most one register or one word of data memory has another value. -/
  places : e.machine.DiffersInOne e.step.2.machine
  /-- Events stay, and one more may have come. -/
  events : e.step.2.machine.events = e.machine.events ∨
    ∃ x, e.step.2.machine.events = e.machine.events.push x
  /-- A step that fails leaves the machine, its program counter with it. -/
  failed : ∀ err, e.step.1 = .error err → e.step.2.machine = e.machine
  /-- Any other one goes on to the next word, or to the target that the word names. -/
  moved : ∀ b, e.machine.halted = false → e.step.1 = .ok b →
    e.step.2.machine.pc = e.machine.pc + 1 ∨
      ∃ word d, e.words[e.machine.pc]? = some word ∧ decode? word = some d ∧
        d.Targets e.step.2.machine.pc ∧ e.step.2.machine.pc < programMemoryDepth

theorem smallStep (e : Emulator) : e.SmallStep := by
  have h := e.stepped
  constructor <;> generalize e.step = r at h <;> cases h
  case places.executed eff _ _ _ _ _ => exact e.machine.differsInOne_apply eff
  case places.stopped | places.unable | places.failed => exact .refl e.machine
  case events.executed eff _ _ _ _ _ => exact e.machine.events_apply eff
  case moved.executed word d eff _ _ hword hd heff =>
    intro _ _ _
    rcases Machine.pc_apply (Machine.effect_within heff) with hpc | htarget
    · exact .inl hpc
    · exact .inr ⟨word, d, hword, hd, htarget, htarget.lt⟩
  all_goals simp_all

/-! ### Calls -/

/-- What an emulator can be called to do. -/
inductive Call where
  | step | run
  deriving DecidableEq, Repr

/-- The emulator after a call, whatever the answer was. -/
def call (e : Emulator) : Call → Emulator
  | .step => e.step.2
  | .run => e.run.2

/-- The emulator after calls that follow one another. -/
def after (e : Emulator) (calls : List Call) : Emulator := calls.foldl call e

theorem after_append (e : Emulator) (calls calls' : List Call) :
    e.after (calls ++ calls') = (e.after calls).after calls' := List.foldl_append

theorem run_of_failure {err : EmulatorError} {e' : Emulator} (hrun : e.machine.halted = false)
    (hstep : e.step = (.error err, e')) : e.run = (.error err, e') := by
  rw [run, dif_neg (by simp [hrun])]
  split <;> simp_all

/-- **A run is a number of steps.** -/
theorem exists_run_eq (e : Emulator) : ∃ n, e.run.2 = e.after (List.replicate n .step) := by
  induction e using run.induct with
  | case1 e hhalt => exact ⟨0, by rw [(run_of_halted hhalt).1]; rfl⟩
  | case2 e hrun err e' hstep =>
    refine ⟨1, ?_⟩
    rw [run_of_failure (by simpa using hrun) hstep]
    exact congrArg Prod.snd hstep.symm
  | case3 e hrun b e' hstep _ ih =>
    obtain ⟨n, hn⟩ := ih
    refine ⟨n + 1, ?_⟩
    rw [(run_of_step (by simpa using hrun) hstep).1, hn, List.replicate_succ]
    simp only [after, List.foldl_cons, call, hstep]

/-- An emulator that has ended its program stays as it is. -/
theorem after_of_halted (hhalt : e.machine.halted = true) (calls : List Call) :
    e.after calls = e := by
  induction calls with
  | nil => rfl
  | cons c calls ih =>
    have hcall : e.call c = e := by
      cases c with
      | step => simp only [call, step, if_pos hhalt]
      | run => simp only [call, (run_of_halted hhalt).1]
    rw [after, List.foldl_cons, hcall]
    exact ih

/-! ### The invariant -/

variable {words : List Word} {limit : Nat}

/-- **What no word can break.** -/
structure WellFormed (words : List Word) (limit : Nat) (e : Emulator) : Prop where
  words_eq : e.words = words.toArray
  limit_eq : e.limit = limit
  zero : e.machine.ZeroRegisters
  steps_le : e.steps ≤ limit
  /-- With every step, time has moved by less than `2 ^ 32`. -/
  times : e.machine.TimesWithin (e.steps * (2 ^ 32 - 1))

theorem wellFormed_ofWords (words : List Word) (limit : Nat) :
    WellFormed words limit (ofWords words limit) where
  words_eq := rfl
  limit_eq := rfl
  zero page _ := by simp [ofWords, Machine.read]
  steps_le := Nat.zero_le limit
  times := ⟨Nat.zero_le _, by simp [ofWords]⟩

/-- **A step keeps an emulator well formed**, whether it succeeds or fails. -/
theorem WellFormed.step (h : e.WellFormed words limit) : e.step.2.WellFormed words limit := by
  have hstepped := e.stepped
  generalize e.step = r at hstepped
  cases hstepped with
  | stopped | unable => exact h
  | failed _ _ hlimit =>
    refine ⟨h.words_eq, h.limit_eq, h.zero, h.limit_eq ▸ hlimit, ?_⟩
    exact h.times.mono (Nat.mul_le_mul_right _ (Nat.le_succ e.steps))
  | executed word d eff _ hlimit _ _ heff =>
    have hwithin := Machine.effect_within heff
    refine ⟨h.words_eq, h.limit_eq, h.zero.apply hwithin, h.limit_eq ▸ hlimit, ?_⟩
    rw [Nat.succ_mul]
    exact h.times.apply hwithin

theorem WellFormed.steps (h : e.WellFormed words limit) (n : Nat) :
    (e.after (List.replicate n .step)).WellFormed words limit := by
  induction n generalizing e with
  | zero => exact h
  | succ n ih =>
    rw [List.replicate_succ, after, List.foldl_cons]
    exact ih h.step

theorem WellFormed.call (h : e.WellFormed words limit) (c : Call) :
    (e.call c).WellFormed words limit := by
  cases c with
  | step => exact h.step
  | run =>
    obtain ⟨n, hn⟩ := e.exists_run_eq
    rw [Emulator.call, hn]
    exact h.steps n

theorem WellFormed.after (h : e.WellFormed words limit) (calls : List Call) :
    (e.after calls).WellFormed words limit := by
  induction calls generalizing e with
  | nil => exact h
  | cons c calls ih =>
    rw [Emulator.after, List.foldl_cons]
    exact ih (h.call c)

/-- A time that 64 bits hold with its sign. -/
def Fits64 (t : Int) : Prop := -2 ^ 63 ≤ t ∧ t < 2 ^ 63

/-- Within `2 ^ 30` steps no time leaves the range of 64 bits. -/
theorem WellFormed.fits64 (h : e.WellFormed words limit) (hlimit : limit ≤ 2 ^ 30) :
    Fits64 e.machine.timeOffset ∧ ∀ x ∈ e.machine.events, Fits64 x.time := by
  have hsteps := Nat.le_trans h.steps_le hlimit
  have hbound : e.steps * (2 ^ 32 - 1) < 2 ^ 63 := by omega
  have hfits {t : Int} (ht : t.natAbs ≤ e.steps * (2 ^ 32 - 1)) : Fits64 t := by
    unfold Fits64
    omega
  exact ⟨hfits h.times.offset, fun x hx => hfits (h.times.events x hx)⟩

/-- **An emulator that behaves well**, whatever its words are. -/
structure WellBehaved (words : List Word) (limit : Nat) (e : Emulator) : Prop
    extends WellFormed words limit e where
  /-- The word at the program counter reaches no register and no word of data memory but those
  there are. -/
  contained : ∀ word d, e.words[e.machine.pc]? = some word → decode? word = some d → d.Contained
  smallStep : e.SmallStep
  /-- A run passes only through what calls of `step` lead to. -/
  run_steps : ∃ n, e.run.2 = e.after (List.replicate n .step)
  /-- All that is computed from times is a time offset or the time of an event. -/
  fits64 : limit ≤ 2 ^ 30 →
    Fits64 e.machine.timeOffset ∧ ∀ x ∈ e.machine.events, Fits64 x.time
  stopped : e.machine.halted = true →
    e.step = (.ok false, e) ∧ e.run = (.ok (), e) ∧ ∀ calls, e.after calls = e

/-- **An emulator behaves well at any time.**  It may have been given any words and any limit, and
called in any order, and some of the calls may have failed. -/
theorem wellBehaved (words : List Word) (limit : Nat) (calls : List Call) :
    ((ofWords words limit).after calls).WellBehaved words limit := by
  have h := (wellFormed_ofWords words limit).after calls
  exact {
    toWellFormed := h
    contained := fun _ d _ _ => d.contained
    smallStep := smallStep _
    run_steps := exists_run_eq _
    fits64 := h.fits64
    stopped := fun hhalt =>
      ⟨by rw [step, if_pos hhalt], (run_of_halted hhalt).1, after_of_halted hhalt⟩ }

/-- A write to register 0 is dropped, and an address that data memory does not have is refused as
often as one tries. -/
example :
    let e := (ofWords [0x1900000000000007, 0x1800000040000000] 10).after [.step, .step, .run]
    e.machine.read 0 0 = 0 ∧ e.machine.pc = 1 ∧ e.steps = 3 ∧
      e.step.1 matches .error (.memoryOutOfRange 1 0x40000000) := by decide +kernel

end Emulator
end PulseProcessor
