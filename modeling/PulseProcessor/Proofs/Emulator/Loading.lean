import Mathlib.Algebra.Group.Int.Defs
import PulseProcessor.Proofs.Emulator.Realising
import PulseProcessor.Proofs.Interpreter

/-! # Which constants are loaded

The number in a word has 31 bits and may be written with sign or without, so a word takes what lies
between `-2 ^ 30` and `2 ^ 31`.  A load puts the constant itself into its first word, or a quarter
of it, and so takes what lies between `-2 ^ 32` and `2 ^ 33`.  It refuses everything else, and what
it takes is in the register afterwards, modulo `2 ^ 32` (`Program.loadConstant_loads`).

A quarter of `2 ^ 30` or more comes back negative from its word.  That makes no difference, because
the bits in which it differs are shifted out.
-/

namespace PulseProcessor

open Isa (FieldKind Operator)

/-! ### Steps with success -/

namespace Emulator

variable {e : Emulator} {m' : Machine} {ms : List Machine}

/-- A stretch that ends in a running machine is so many steps with success. -/
theorem stepsOf_of_executes (h : Machine.Executes e.words e.machine ms m')
    (hrun : m'.halted = false) (hlimit : e.steps + ms.length ≤ e.limit) :
    stepsOf step ms.length e = (List.replicate ms.length (.ok true),
      { e with machine := m', steps := e.steps + ms.length }) := by
  -- The emulator changes along the stretch; its machine is what the induction is about.
  generalize hm : e.machine = m at h
  generalize hw : e.words = words at h
  induction h generalizing e with
  | refl m =>
    subst hm hw
    rfl
  | @step m m₁ m₂ ms head tail ih =>
    subst hm hw
    have hrun₁ : m₁.halted = false := by
      cases tail with
      | refl _ => exact hrun
      | step head' _ => exact (Machine.exists_of_next? head').1
    rw [List.length_cons] at hlimit
    have hrest := ih (e := { e with machine := m₁, steps := e.steps + 1 }) hrun
      (by simp only; omega) rfl rfl
    rw [List.length_cons, stepsOf, step_of_next? (by omega) head, hrun₁, hrest]
    simp [List.replicate_succ, Nat.add_assoc, Nat.add_comm 1]

/-- **The words stand one behind the other where the emulator is.** -/
def Holds (e : Emulator) (ws : List Word) : Prop :=
  ∀ (k : Nat) w, ws[k]? = some w → e.words[e.machine.pc + k]? = some w

/-- **A constant has been loaded in `n` steps, and nothing else has happened.** -/
structure Loads (e : Emulator) (r : Register) (v : Int) (n : Nat) (e' : Emulator) : Prop where
  value : ((e'.machine.get r).toNat : Int) = v % 2 ^ 32
  others : ∀ page reg, page < 8 → reg < 32 → (page, reg) ≠ (r.page.toNat, r.number.toNat) →
    e'.machine.read page reg = e.machine.read page reg
  pc : e'.machine.pc = e.machine.pc + n
  memory : e'.machine.memory = e.machine.memory
  timeOffset : e'.machine.timeOffset = e.machine.timeOffset
  events : e'.machine.events = e.machine.events
  halted : e'.machine.halted = false
  words : e'.words = e.words
  limit : e'.limit = e.limit
  steps : e'.steps = e.steps + n

theorem loads_put {r : Register} (hr : r.Valid) (v : Int) (n : Nat)
    (hrun : e.machine.halted = false) :
    e.Loads r v n { e with
      machine := (e.machine.put r (.ofInt v)).goto (e.machine.pc + n), steps := e.steps + n } where
  value := by
    have hget := Machine.get_put_self (m := e.machine) (v := .ofInt v) hr
    exact (congrArg (fun x : UInt32 => (x.toNat : Int)) hget).trans (toNat_ofInt v)
  others page reg hpage hreg hne := by
    rw [Machine.read_goto, Machine.put,
      Machine.read_write hr.page_lt hr.number_lt hpage hreg, if_neg]
    rintro ⟨-, rfl, rfl⟩
    exact hne rfl
  pc := rfl
  memory := Machine.write_memory
  timeOffset := Machine.put_timeOffset
  events := Machine.put_events
  halted := Machine.put_halted.trans hrun
  words := rfl
  limit := rfl
  steps := rfl

end Emulator

namespace Program

variable {p q : Program} {pc : Nat} {r : Register} {v : Int} {i : Instruction}
  {block : List Statement}

/-! ### Words of the load -/

theorem fits_page (hr : r.Valid) : FieldKind.page.Fits r.page.toNat :=
  ⟨Int.natCast_nonneg _, Int.ofNat_lt.2 hr.page_lt⟩

theorem fits_number (hr : r.Valid) : FieldKind.register.Fits r.number.toNat :=
  ⟨Int.natCast_nonneg _, Int.ofNat_lt.2 hr.number_lt⟩

theorem fits_immediate : FieldKind.immediate.Fits v ↔ -2 ^ 30 ≤ v ∧ v < 2 ^ 31 := Iff.rfl

theorem fits_code (op : Operator) : FieldKind.operator.Fits op.code := by
  cases op <;> decide

/-- The instructions of a load.  Only the first one takes a number that may not fit. -/
inductive LoadPart (r : Register) (v : Int) : Instruction → Prop
  | upper : LoadPart r v (.regwi r.page r.number v)
  | shift : LoadPart r v (.bitwi r.page r.number r.number (.known .shl) 2)
  | lower {low : Int} (fits : FieldKind.immediate.Fits low) :
      LoadPart r v (.mathi r.page r.number r.number (.known .add) low)

namespace LoadPart

theorem straight (h : LoadPart r v i) : i.Straight := by
  cases h <;> exact ⟨rfl, nofun⟩

theorem exists_word (h : LoadPart r v i) (hr : r.Valid) (hv : FieldKind.immediate.Fits v) :
    ∃ w, p.encodeInstruction pc i = .ok w := by
  have hpage := fits_page hr
  have hnumber := fits_number hr
  cases h with
  | upper => exact exists_word_of_fits fun
    | 0, _, rfl => ⟨_, .page, rfl, rfl, hpage⟩
    | 1, _, rfl => ⟨_, .register, rfl, rfl, hnumber⟩
    | 2, _, rfl => ⟨_, .immediate, rfl, rfl, hv⟩
  | shift => exact exists_word_of_fits fun
    | 0, _, rfl => ⟨_, .page, rfl, rfl, hpage⟩
    | 1, _, rfl | 2, _, rfl => ⟨_, .register, rfl, rfl, hnumber⟩
    | 3, _, rfl => ⟨_, .operator, rfl, rfl, fits_code .shl⟩
    | 4, _, rfl => ⟨_, .immediate, rfl, rfl, by decide⟩
  | lower fits => exact exists_word_of_fits fun
    | 0, _, rfl => ⟨_, .page, rfl, rfl, hpage⟩
    | 1, _, rfl | 2, _, rfl => ⟨_, .register, rfl, rfl, hnumber⟩
    | 3, _, rfl => ⟨_, .operator, rfl, rfl, fits_code .add⟩
    | 4, _, rfl => ⟨_, .immediate, rfl, rfl, fits⟩

end LoadPart

theorem encodeInstruction_regwi_eq_error (hr : r.Valid) (hv : ¬ FieldKind.immediate.Fits v) :
    p.encodeInstruction pc (.regwi r.page r.number v) =
      .error (.fieldOverflow .regwi 2 v 31) := by
  obtain ⟨raw₀, h₀⟩ : ∃ raw, p.operandPattern pc .regwi 0 (.int r.page.toNat) = .ok raw :=
    exists_operandPattern rfl rfl (fits_page hr)
  obtain ⟨raw₁, h₁⟩ : ∃ raw, p.operandPattern pc .regwi 1 (.reg r.number) = .ok raw :=
    exists_operandPattern rfl rfl (fits_number hr)
  have h₂ : p.operandPattern pc .regwi 2 (.int v) = .error (.fieldOverflow .regwi 2 v 31) := by
    have hnone := FieldKind.pattern?_eq_none_iff.2 hv
    have hkind : Isa.Mnemonic.regwi.layout.kind? 2 = some .immediate := rfl
    simp [operandPattern, operandValue, hkind, hnone, bind, Except.bind, throw, throwThe,
      MonadExceptOf.throw, FieldKind.width]
  simp [encodeInstruction, Instruction.mnemonic, Instruction.operands, Instruction.small,
    operandPatterns, h₀, h₁, h₂, bind, Except.bind, Except.map]

/-! ### The block of a load -/

/-- The number that the first instruction of a load carries. -/
def leadingPart (v : Int) : Int := if v.natAbs < 1 <<< 30 then v else v / 4

theorem fits_leadingPart : FieldKind.immediate.Fits (leadingPart v) ↔ -2 ^ 32 ≤ v ∧ v < 2 ^ 33 := by
  rw [fits_immediate, leadingPart]
  split <;> omega

theorem leadingPart_of_not_fits (hv : ¬ FieldKind.immediate.Fits (leadingPart v)) :
    leadingPart v = v / 4 := by
  rw [fits_leadingPart] at hv
  exact if_neg (by omega)

/-- A load adds the same statements to every program, up to three. -/
theorem exists_block (r : Register) (v : Int) (comment : Option String) :
    ∃ rest : List Statement, rest.length ≤ 2 ∧
      (∀ s ∈ rest, LoadPart r (leadingPart v) s.instruction) ∧
      ∀ p : Program, p.loadConstant r.page r.number v comment = { p with
        statements := p.statements ++
          (⟨.regwi r.page r.number (leadingPart v), comment.map oneLine⟩ :: rest).toArray } := by
  unfold loadConstant leadingPart
  by_cases hsmall : v.natAbs < 1 <<< 30
  · simp only [if_pos hsmall]
    exact ⟨[], by simp, by simp, fun p => by simp [append]⟩
  simp only [if_neg hsmall]
  by_cases hzero : v % 4 = 0
  · simp only [if_pos hzero]
    exact ⟨[⟨.bitwi r.page r.number r.number (.known .shl) 2, none⟩], by simp,
      by simpa using LoadPart.shift, fun p => by simp [append, ← Array.toList_inj]⟩
  · simp only [if_neg hzero]
    have hfits : FieldKind.immediate.Fits (v % 4) := fits_immediate.2 ⟨by omega, by omega⟩
    exact ⟨[⟨.bitwi r.page r.number r.number (.known .shl) 2, none⟩,
      ⟨.mathi r.page r.number r.number (.known .add) (v % 4), none⟩], by simp,
      by simpa using ⟨LoadPart.shift, LoadPart.lower hfits⟩,
      fun p => by simp [append, ← Array.toList_inj]⟩

/-- Statements without labels have the same words everywhere. -/
theorem exists_words (hs : ∀ s ∈ block, s.instruction.Straight)
    (hwords : ∀ s ∈ block, ∃ w, ({} : Program).encodeInstruction 0 s.instruction = .ok w) :
    ∃ ws, ws.length = block.length ∧
      ∀ (q : Program) (pc : Nat), q.encodeFrom pc block = .ok ws := by
  induction block with
  | nil => exact ⟨[], rfl, fun _ _ => rfl⟩
  | cons s block ih =>
    rw [List.forall_mem_cons] at hs hwords
    obtain ⟨w, hw⟩ := hwords.1
    obtain ⟨ws, hlength, hws⟩ := ih hs.2 hwords.2
    exact ⟨w :: ws, congrArg (· + 1) hlength, fun q pc => encodeFrom_cons_eq_ok_iff.2
      ⟨w, ws, hs.1.encodeInstruction_eq hw q pc, hws q (pc + 1), rfl⟩⟩

/-! ### The load -/

/-- **Loading a constant, wherever it is executed.** -/
theorem loads_of_block {ws : List Word} {comment : Option String} (hr : r.Valid)
    (hblock : ({} : Program).loadConstant r.page r.number v comment =
      { statements := block.toArray })
    (hws : ∀ (q : Program) (pc : Nat), q.encodeFrom pc block = .ok ws) {e : Emulator}
    (hrun : e.machine.halted = false) (hwords : e.Holds ws)
    (hlimit : e.steps + block.length ≤ e.limit) :
    let result := stepsOf Emulator.step block.length e
    result.1 = List.replicate block.length (.ok true) ∧ e.Loads r v block.length result.2 := by
  intro result
  -- What the block does is known from a program that is nothing else.
  have hencode : (({} : Program).loadConstant r.page r.number v comment).encode = .ok ws := by
    rw [hblock]
    exact hws _ 0
  have hrealises : Realises [] {} _ (·.put r (.ofInt v)) :=
    .of_loadConstant hencode hr (by simp) (.refl _)
  obtain ⟨code, hemits, hspares, hperform⟩ := hrealises
  have hcode : code.length = block.length := by
    have := hemits.size_eq
    rw [hblock] at this
    simpa [size, eq_comm] using this
  have hstands : ∀ (k : Nat) i, code[k]? = some i →
      ∃ w, e.words[e.machine.pc + k]? = some w ∧
        ({} : Program).encodeInstruction 0 i = .ok w := fun k i hi => by
    have hat := hemits.at_add hi
    obtain ⟨w, hword, hw⟩ := hat.exists_word hencode
    have hstraight := (hspares i (List.mem_of_getElem? hi)).straight
    exact ⟨w, hwords k w (by simpa [size] using hword), hstraight.encodeInstruction_eq hw {} 0⟩
  obtain ⟨hmachine, hrun'⟩ := hperform e.machine hrun
  obtain ⟨ms, hpass, hlength, -⟩ := Machine.passage_performAll
    (fun i hi => (hspares i hi).straight) hstands hrun hmachine
  rw [hcode] at hlength hpass
  have hresult := Emulator.stepsOf_of_executes hpass.executes hrun' (by rwa [hlength])
  rw [hlength] at hresult
  rw [show result = _ from hresult]
  exact ⟨rfl, Emulator.loads_put hr v block.length hrun⟩

/-- **Which constants are loaded.**  A load adds one to three statements.  If the constant lies
between `-2 ^ 32` and `2 ^ 33`, they have words, the same ones wherever they stand, and whatever
emulator executes them finds the constant in its register, modulo `2 ^ 32`, goes on behind them and
is otherwise as before.  For any other constant the first of them does not fit its word. -/
theorem loadConstant_loads (hr : r.Valid) (v : Int) (comment : Option String) :
    ∃ block : List Statement, block.length ∈ [1, 2, 3] ∧
      (∀ p : Program, p.loadConstant r.page r.number v comment =
        { p with statements := p.statements ++ block.toArray }) ∧
      if -2 ^ 32 ≤ v ∧ v < 2 ^ 33 then
        ∃ ws, ws.length = block.length ∧
          (∀ (q : Program) (pc : Nat), q.encodeFrom pc block = .ok ws) ∧
          ∀ e : Emulator, e.machine.halted = false → e.Holds ws →
            e.steps + block.length ≤ e.limit →
            let result := stepsOf Emulator.step block.length e
            result.1 = List.replicate block.length (.ok true) ∧
              e.Loads r v block.length result.2
      else ∀ (q : Program) (pc : Nat),
        q.encodeFrom pc block = .error (.fieldOverflow .regwi 2 (v / 4) 31) := by
  obtain ⟨rest, hlength, hparts, hblock⟩ := exists_block r v comment
  refine ⟨_ :: rest, ?_, hblock, ?_⟩
  · simp only [List.length_cons, List.mem_cons, List.not_mem_nil, or_false]
    omega
  split
  · rename_i hrange
    have hall : ∀ s ∈ (⟨.regwi r.page r.number (leadingPart v), comment.map oneLine⟩ :: rest :
        List Statement), LoadPart r (leadingPart v) s.instruction :=
      List.forall_mem_cons.2 ⟨.upper, hparts⟩
    obtain ⟨ws, hwords, hws⟩ := exists_words (fun s hs => (hall s hs).straight)
      fun s hs => (hall s hs).exists_word hr (fits_leadingPart.2 hrange)
    refine ⟨ws, hwords, hws, fun e hrun hstands hlimit => ?_⟩
    exact loads_of_block hr ((hblock {}).trans (by simp)) hws hrun hstands hlimit
  · rename_i hrange
    have hfits := mt fits_leadingPart.1 hrange
    intro q pc
    rw [encodeFrom, encodeInstruction_regwi_eq_error hr hfits, leadingPart_of_not_fits hfits]
    rfl

/-- The largest constant that is loaded leaves all bits set.  The next one is refused. -/
theorem loadConstant_loads_largest :
    let r : Register := ⟨7, 31⟩
    let load (v : Int) : Program := ({} : Program).loadConstant 7 31 v
    r.Valid ∧
      (∃ ws, (load (2 ^ 33 - 1)).encode = .ok ws ∧ ws.length = 3 ∧
        ((stepsOf Emulator.step 3 (.ofWords ws)).2.machine.get r).toNat = (2 ^ 32 - 1 : Int) ∧
        (stepsOf Emulator.step 3 (.ofWords ws)).2.machine.pc = 3) ∧
      (load (2 ^ 33)).encode = .error (.fieldOverflow .regwi 2 (2 ^ 31) 31) := by
  intro r load
  have hr : r.Valid := ⟨by decide, by decide, by decide⟩
  refine ⟨hr, ?_, ?_⟩
  · obtain ⟨block, -, hblock, hloads⟩ := loadConstant_loads hr (2 ^ 33 - 1) none
    have hload : load (2 ^ 33 - 1) = { statements := block.toArray } :=
      (hblock {}).trans (by simp)
    have hlength : block.length = 3 := (congrArg (·.statements.size) hload).symm
    rw [if_pos (by decide), hlength] at hloads
    obtain ⟨ws, hws, hencode, hloads⟩ := hloads
    have hstands : (Emulator.ofWords ws).Holds ws := fun k w hw => by
      simpa [Emulator.ofWords] using hw
    have hlimit : 3 ≤ defaultStepLimit := by decide
    obtain ⟨-, hresult⟩ := hloads (.ofWords ws) rfl hstands hlimit
    exact ⟨ws, by rw [hload]; exact hencode _ 0, hws, hresult.value, hresult.pc⟩
  · obtain ⟨block, -, hblock, hloads⟩ := loadConstant_loads hr (2 ^ 33) none
    rw [if_neg (by decide)] at hloads
    rw [show load (2 ^ 33) = { statements := block.toArray } from (hblock {}).trans (by simp)]
    exact hloads _ 0

end Program
end PulseProcessor
