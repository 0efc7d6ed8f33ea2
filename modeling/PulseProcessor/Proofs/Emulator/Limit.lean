import Mathlib.Control.Monad.Basic
import PulseProcessor.Proofs.Emulator.WellFormed

/-! # Runs under several limits

A run calls `step` again and again (`Emulator.Loops`), and its limit shows only where it says that
there are no steps left.  So a run that ends for another reason ends in the same way under every
larger limit, and a run that has been cut short has got exactly as far as its limit says
(`Emulator.run_cutsShort`).
-/

namespace PulseProcessor
namespace Emulator

variable {e e' f : Emulator} {b : Bool} {r : Except EmulatorError Unit} {limit n : Nat}

/-! ### The loop -/

/-- **The loop of a run**, with the calls of `step` it takes, its answer, and what it leaves. -/
inductive Loops : Emulator → Nat → Except EmulatorError Unit → Emulator → Prop where
  | halted {e : Emulator} (hhalt : e.machine.halted = true) : Loops e 0 (.ok ()) e
  | failed {e e' : Emulator} {err : EmulatorError} (hrun : e.machine.halted = false)
    (hstep : e.step = (.error err, e')) : Loops e 1 (.error err) e'
  | stepped {e e' f : Emulator} {b : Bool} {n : Nat} {r : Except EmulatorError Unit}
    (hrun : e.machine.halted = false) (hstep : e.step = (.ok b, e')) (rest : Loops e' n r f) :
    Loops e (n + 1) r f

/-- **Runs end**: every call of `step` but the last one uses up a step. -/
theorem exists_loops (e : Emulator) :
    ∃ n ≤ e.limit - e.steps + 1, e.Loops n e.run.1 e.run.2 := by
  induction e using run.induct with
  | case1 e hhalt =>
    rw [(run_of_halted hhalt).1]
    exact ⟨0, Nat.zero_le _, .halted hhalt⟩
  | case2 e hrun err e' hstep =>
    have hrun : e.machine.halted = false := by simpa using hrun
    rw [run_of_failure hrun hstep]
    exact ⟨1, Nat.le_add_left .., .failed hrun hstep⟩
  | case3 e hrun b e' hstep hlt ih =>
    have hrun : e.machine.halted = false := by simpa using hrun
    obtain ⟨n, hn, hloops⟩ := ih
    rw [(run_of_step hrun hstep).1]
    exact ⟨n + 1, by omega, .stepped hrun hstep hloops⟩

theorem Loops.run_eq (h : e.Loops n r f) : e.run = (r, f) := by
  induction h with
  | halted hhalt => exact (run_of_halted hhalt).1
  | failed hrun hstep => exact run_of_failure hrun hstep
  | stepped hrun hstep _ ih => exact (run_of_step hrun hstep).1.trans ih

/-- What is yet to fail has not halted. -/
theorem Loops.running {err : EmulatorError} (h : e.Loops n (.error err) f) :
    e.machine.halted = false := by
  cases h <;> assumption

/-! ### Another limit -/

def withLimit (e : Emulator) (limit : Nat) : Emulator := { e with limit }

/-- A step that succeeds counts, and says whether the program goes on. -/
theorem steps_of_step (hrun : e.machine.halted = false) (h : e.step = (.ok b, e')) :
    e.steps < e.limit ∧ e'.limit = e.limit ∧ e'.steps = e.steps + 1 ∧
      b = ! e'.machine.halted := by
  have hstepped := e.stepped
  rw [h] at hstepped
  cases hstepped with
  | stopped hhalt => simp [hrun] at hhalt
  | executed _ _ _ _ hlimit _ _ _ => exact ⟨hlimit, rfl, rfl, rfl⟩

/-- Without a step left, a step fails for that reason and leaves all as it is. -/
theorem step_of_limit_le (hrun : e.machine.halted = false) (h : e.limit ≤ e.steps) :
    e.step = (.error (.stepLimit e.limit), e) :=
  (Fails.limit h).step_eq hrun

/-- That there is no step left is said only then. -/
theorem limit_le_of_step {k : Nat} (h : e.step = (.error (.stepLimit k), e')) :
    e.limit ≤ e.steps ∧ e' = e := by
  obtain ⟨hrun, hfails⟩ := fails_of_step (congrArg Prod.fst h)
  have hlimit : e.limit ≤ e.steps := by
    cases hfails with
    | limit hlimit => exact hlimit
    | effect _ _ _ heff => have := Machine.cost_of_effect heff; contradiction
  rw [step_of_limit_le hrun hlimit] at h
  exact ⟨hlimit, (congrArg Prod.snd h).symm⟩

theorem advance_withLimit (hsteps : e.steps < e.limit) (hle : e.limit ≤ limit) :
    (e.withLimit limit).advance = e.advance := by
  have hsteps' : ¬ (e.withLimit limit).limit ≤ (e.withLimit limit).steps :=
    Nat.not_le.2 (Nat.lt_of_lt_of_le hsteps hle)
  rw [advance, advance, if_neg (Nat.not_le.2 hsteps), if_neg hsteps']
  rfl

/-- **A step that is left under one limit is the same under a larger one.** -/
theorem step_withLimit (hsteps : e.steps < e.limit) (hle : e.limit ≤ limit) :
    (e.withLimit limit).step = (e.step.1, e.step.2.withLimit limit) := by
  unfold step
  rw [advance_withLimit hsteps hle, show (e.withLimit limit).machine = e.machine from rfl]
  cases e.machine.halted with
  | true => rfl
  | false => obtain ⟨_ | m, k⟩ := e.advance <;> rfl

/-! ### Whole runs -/

/-- **A run that ends for another reason** makes the same calls under a larger limit. -/
theorem Loops.withLimit (h : e.Loops n r f) (hr : r ≠ .error (.stepLimit e.limit))
    (hle : e.limit ≤ limit) : (e.withLimit limit).Loops n r (f.withLimit limit) := by
  induction h with
  | halted hhalt => exact .halted hhalt
  | @failed e e' err hrun hstep =>
    have hsteps : e.steps < e.limit := by
      by_contra hge
      rw [step_of_limit_le hrun (Nat.not_lt.1 hge)] at hstep
      cases hstep
      exact hr rfl
    have hstep' := step_withLimit hsteps hle
    rw [hstep] at hstep'
    exact .failed hrun hstep'
  | @stepped e e' f b n r hrun hstep _ ih =>
    obtain ⟨hsteps, hlimit, -, -⟩ := steps_of_step hrun hstep
    have hstep' := step_withLimit hsteps hle
    rw [hstep] at hstep'
    exact .stepped hrun hstep' (ih (hlimit ▸ hr) (hlimit ▸ hle))

/-- **A run that is cut short** has used up its steps.  Under a larger limit so many calls of `step`
succeed, and lead to the same place. -/
theorem Loops.cut (h : e.Loops n r f) (hr : r = .error (.stepLimit e.limit))
    (hsteps : e.steps ≤ e.limit) (hle : e.limit ≤ limit) :
    f.steps = e.limit ∧
      (∀ k < e.limit - e.steps,
        ((e.withLimit limit).after (.replicate k .step)).step.1 = .ok true) ∧
      (e.withLimit limit).after (.replicate (e.limit - e.steps) .step) = f.withLimit limit := by
  induction h with
  | halted hhalt => contradiction
  | @failed e e' err hrun hstep =>
    cases hr
    obtain ⟨hlimit, rfl⟩ := limit_le_of_step hstep
    have heq : e'.steps = e'.limit := Nat.le_antisymm hsteps hlimit
    rw [heq, Nat.sub_self]
    exact ⟨rfl, by simp, rfl⟩
  | @stepped e e' f b n r hrun hstep rest ih =>
    obtain ⟨hlt, hlimit, hcount, hb⟩ := steps_of_step hrun hstep
    obtain ⟨hfinal, hearlier, hafter⟩ := ih (hlimit ▸ hr) (by omega) (hlimit ▸ hle)
    have hstep' := step_withLimit hlt hle
    have hcall (k : Nat) : (e.withLimit limit).after (.replicate (k + 1) .step) =
        (e'.withLimit limit).after (.replicate k .step) := by
      rw [List.replicate_succ, after, List.foldl_cons, call, hstep', hstep]
      rfl
    have hleft : e.limit - e.steps = e'.limit - e'.steps + 1 := by omega
    refine ⟨hfinal.trans hlimit, fun k hk => ?_, by rw [hleft, hcall, hafter]⟩
    cases k with
    | zero =>
      subst hr
      have hcontinues : b = true := by rw [hb, rest.running]; rfl
      rw [List.replicate_zero, after, List.foldl_nil, hstep', hstep, hcontinues]
    | succ k =>
      rw [hcall]
      exact hearlier k (by omega)

/-- **A limit only cuts runs short.** -/
structure CutsShort (words : List Word) (limit limit' : Nat) : Prop where
  /-- The run ends, and takes one call of `step` more than there are steps at most. -/
  ends : ∃ n ≤ limit + 1, (ofWords words limit).Loops n (ofWords words limit).run.1
    (ofWords words limit).run.2
  /-- If it was not for the limit, the larger limit makes no difference to what the run comes to. -/
  same : (ofWords words limit).run.1 ≠ .error (.stepLimit limit) →
    (ofWords words limit').run =
      ((ofWords words limit).run.1, (ofWords words limit).run.2.withLimit limit')
  /-- If it was, all steps are used up.  Under the larger limit so many steps succeed, and lead to
  the same state. -/
  cut : (ofWords words limit).run.1 = .error (.stepLimit limit) →
    (ofWords words limit).run.2.steps = limit ∧
      (∀ k < limit, ((ofWords words limit').after (.replicate k .step)).step.1 = .ok true) ∧
      (ofWords words limit').after (.replicate limit .step) =
        (ofWords words limit).run.2.withLimit limit'

/-- **A run under a limit is the beginning of the run under any larger one.** -/
theorem run_cutsShort (words : List Word) {limit limit' : Nat} (hle : limit ≤ limit') :
    CutsShort words limit limit' := by
  obtain ⟨n, hn, hloops⟩ := (ofWords words limit).exists_loops
  exact {
    ends := ⟨n, hn, hloops⟩
    same := fun hr => (hloops.withLimit hr hle).run_eq
    cut := fun hr => hloops.cut hr (Nat.zero_le _) hle }

/-- A loop of five steps is cut short in the middle by a limit of three. -/
theorem run_cutsShort_loop :
    let ws : List Word := [0x1900020000000002, 0x3002021000000001, 0x3f00000000000000]
    3 ≤ 5 ∧ (ofWords ws 3).run.1 = .error (.stepLimit 3) ∧ CutsShort ws 3 5 := by
  intro ws
  have hcut : (ofWords ws 3).run.1 = .error (.stepLimit 3) := by decide +kernel
  exact ⟨by decide, hcut, run_cutsShort ws (by decide)⟩

end Emulator
end PulseProcessor
