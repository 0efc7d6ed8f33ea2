import Mathlib.Control.Monad.Basic
import PulseProcessor.Proofs.Emulator.Execution
import PulseProcessor.Proofs.Interpreter.Simulation

/-! # Operators in execution

Of its operator a word has nothing but the code, and the classes of operators share their codes.
What a code means is therefore for the mnemonic to say: the word is executed with the operator of
that code which belongs to the class of the mnemonic, and refused if there is none
(`Emulator.step_operator`).  An operator of that class is executed as it was written.  One of
another class may be executed as a different operator, because nobody looks at the mnemonic when the
word is put together (`Emulator.step_foreignOperator`).
-/

namespace PulseProcessor

open Isa (Mnemonic Operator)

/-! ### Classes and codes -/

/-- **Codes are read as the operators of a class**: as each of them, and as nothing else. -/
structure Isa.Operator.ReadAs {β : Type} (class? : Operator → Option (UInt32 → UInt32 → β))
    (read? : Nat → UInt32 → UInt32 → Option β) : Prop where
  read : ∀ {op f a b}, class? op = some f → read? op.code a b = some (f a b)
  exists_of_read : ∀ {code a b x}, read? code a b = some x →
    ∃ op f, op.code = code ∧ class? op = some f

namespace Isa.Operator

theorem readAs_arithmetic : ReadAs arithmetic? PulseProcessor.arithmetic? where
  read := arithmetic?_code
  exists_of_read h := by
    unfold PulseProcessor.arithmetic? at h
    split at h
    · exact ⟨.add, _, rfl, rfl⟩
    · exact ⟨.sub, _, rfl, rfl⟩
    · exact ⟨.mul, _, rfl, rfl⟩
    · contradiction

theorem readAs_bitwise : ReadAs bitwise? PulseProcessor.bitwise? where
  read := bitwise?_code
  exists_of_read h := by
    unfold PulseProcessor.bitwise? at h
    split at h
    · exact ⟨.and, _, rfl, rfl⟩
    · exact ⟨.or, _, rfl, rfl⟩
    · exact ⟨.xor, _, rfl, rfl⟩
    · exact ⟨.not, _, rfl, rfl⟩
    · exact ⟨.shl, _, rfl, rfl⟩
    · exact ⟨.shr, _, rfl, rfl⟩
    · contradiction

theorem readAs_comparison :
    ReadAs comparison? fun code a b => compare? code (signed a) (signed b) where
  read := comparison?_code
  exists_of_read h := by
    unfold compare? at h
    split at h
    · exact ⟨.gt, _, rfl, rfl⟩
    · exact ⟨.ge, _, rfl, rfl⟩
    · exact ⟨.lt, _, rfl, rfl⟩
    · exact ⟨.le, _, rfl, rfl⟩
    · exact ⟨.eq, _, rfl, rfl⟩
    · exact ⟨.ne, _, rfl, rfl⟩
    · contradiction

namespace ReadAs

variable {β : Type} {class? : Operator → Option (UInt32 → UInt32 → β)}
  {read? : Nat → UInt32 → UInt32 → Option β} {op op' : Operator} {a b : UInt32}

theorem demand_eq_ok (hread : ReadAs class? read?) (m : Machine) (mnemonic : Mnemonic)
    (hcode : op'.code = op.code) {f : UInt32 → UInt32 → β} (hf : class? op' = some f) :
    m.demand mnemonic op.code (read? op.code a b) = .ok (f a b) := by
  rw [← hcode, hread.read hf]
  rfl

theorem demand_eq_error (hread : ReadAs class? read?) (m : Machine) (mnemonic : Mnemonic)
    (hnone : ∀ op', op'.code = op.code → class? op' = none) :
    m.demand mnemonic op.code (read? op.code a b) =
      .error (.invalidOperator m.pc mnemonic op.code) := by
  cases hx : read? op.code a b with
  | none => rfl
  | some x =>
    obtain ⟨op', f, hcode, hf⟩ := hread.exists_of_read hx
    rw [hnone op' hcode] at hf
    contradiction

end ReadAs
end Isa.Operator

/-! ### Instructions with operators -/

namespace Instruction

/-- The operator of an instruction that computes or compares. -/
def operator? : Instruction → Option OperatorRef
  | mathi _ _ _ op _ | bitwi _ _ _ op _ => some op
  | math _ _ _ op _ | bitw _ _ _ op _ => some op
  | condj _ _ op _ _ => some op
  | _ => none

/-- **What the instruction makes of a machine if its operator is `op`**, as far as `op` has a
meaning in the class of its mnemonic.  An immediate is what its word carries of it. -/
def operate? (p : Program) (op : Operator) (m : Machine) : Instruction → Option Machine
  | mathi page dst src _ imm => op.arithmetic?.map fun f =>
    (m.put ⟨page, dst⟩ (f (m.get ⟨page, src⟩) (.ofInt (imm.bmod (1 <<< 31))))).goto (m.pc + 1)
  | math page dst lhs _ rhs => op.arithmetic?.map fun f =>
    (m.put ⟨page, dst⟩ (f (m.get ⟨page, lhs⟩) (m.get ⟨page, rhs⟩))).goto (m.pc + 1)
  | bitwi page dst src _ imm => op.bitwise?.map fun f =>
    (m.put ⟨page, dst⟩ (f (m.get ⟨page, src⟩) (.ofInt (imm.bmod (1 <<< 31))))).goto (m.pc + 1)
  | bitw page dst lhs _ rhs => op.bitwise?.map fun f =>
    (m.put ⟨page, dst⟩ (f (m.get ⟨page, lhs⟩) (m.get ⟨page, rhs⟩))).goto (m.pc + 1)
  | condj page lhs _ rhs target => op.comparison?.map fun f =>
    m.goto (if f (m.get ⟨page, lhs⟩) (m.get ⟨page, rhs⟩) then p.place target else m.pc + 1)
  | _ => none

/-- **An outcome is that of the operators with the code of `op`**: what one of them makes of the
machine, or a complaint about the code if none of them has a meaning. -/
structure OperatesBy (i : Instruction) (p : Program) (op : Operator) (m : Machine)
    (result : Except EmulatorError Machine) : Prop where
  operated : ∀ op' m', op'.code = op.code → i.operate? p op' m = some m' → result = .ok m'
  refused : (∀ op', op'.code = op.code → i.operate? p op' m = none) →
    result = .error (.invalidOperator m.pc i.mnemonic op.code)

/-- What is common to all classes: `act` is what the instruction does with the result. -/
theorem OperatesBy.of_readAs {β : Type} {class? : Operator → Option (UInt32 → UInt32 → β)}
    {read? : Nat → UInt32 → UInt32 → Option β} (hread : Operator.ReadAs class? read?)
    {i : Instruction} {p : Program} {op : Operator} {m : Machine} {a b : UInt32}
    {act : β → Effect} (hoperate : ∀ op', i.operate? p op' m =
      (class? op').map fun f => m.apply (act (f a b))) :
    i.OperatesBy p op m
      (((m.demand i.mnemonic op.code (read? op.code a b)).map act).map m.apply) where
  operated op' m' hcode hm' := by
    rw [hoperate op'] at hm'
    obtain ⟨f, hf, rfl⟩ := Option.map_eq_some_iff.1 hm'
    rw [hread.demand_eq_ok m i.mnemonic hcode hf]
    rfl
  refused hnone := by
    rw [hread.demand_eq_error m i.mnemonic fun op' hcode => ?_]
    · rfl
    · have := hnone op' hcode
      rwa [hoperate op', Option.map_eq_none_iff] at this

variable {q : Program} {pc : Nat} {w : Word} {i : Instruction} {o : OperatorRef}

/-- **A word with an operator does what the operators with its code do.** -/
theorem operatesBy_effect (h : q.encodeInstruction pc i = .ok w) (ho : i.operator? = some o) :
    ∃ op, o.resolve = .ok op ∧
      ∀ m : Machine, i.OperatesBy q op m ((m.effect ⟨i.mnemonic, w⟩).map m.apply) := by
  have hwrite (m : Machine) (page reg : UInt8) (x : UInt32) :
      m.apply (.write page.toNat reg.toNat x) = (m.put ⟨page, reg⟩ x).goto (m.pc + 1) :=
    Machine.put_goto (r := ⟨page, reg⟩) (m.pc + 1)
  cases i
  case mathi page dst src o' imm =>
    cases ho
    obtain ⟨-, -, -, op, hop, heffect⟩ := Machine.effect_mathi h
    refine ⟨op, hop, fun m => ?_⟩
    rw [mnemonic, heffect m]
    exact .of_readAs Operator.readAs_arithmetic fun _ => by simp only [operate?, hwrite]; rfl
  case math page dst lhs o' rhs =>
    cases ho
    obtain ⟨-, -, -, -, op, hop, heffect⟩ := Machine.effect_math h
    refine ⟨op, hop, fun m => ?_⟩
    rw [mnemonic, heffect m]
    exact .of_readAs Operator.readAs_arithmetic fun _ => by simp only [operate?, hwrite]; rfl
  case bitwi page dst src o' imm =>
    cases ho
    obtain ⟨-, -, -, op, hop, heffect⟩ := Machine.effect_bitwi h
    refine ⟨op, hop, fun m => ?_⟩
    rw [mnemonic, heffect m]
    exact .of_readAs Operator.readAs_bitwise fun _ => by simp only [operate?, hwrite]; rfl
  case bitw page dst lhs o' rhs =>
    cases ho
    obtain ⟨-, -, -, -, op, hop, heffect⟩ := Machine.effect_bitw h
    refine ⟨op, hop, fun m => ?_⟩
    rw [mnemonic, heffect m]
    exact .of_readAs Operator.readAs_bitwise fun _ => by simp only [operate?, hwrite]; rfl
  case condj page lhs o' rhs target =>
    cases ho
    obtain ⟨-, -, -, op, place, hop, hplace, heffect⟩ := Machine.effect_condj h
    refine ⟨op, hop, fun m => ?_⟩
    rw [mnemonic, heffect m]
    refine .of_readAs Operator.readAs_comparison fun op' => ?_
    have hjump (taken : Bool) : m.apply (if taken then .jump place else .nothing) =
        m.goto (if taken then q.place target else m.pc + 1) := by
      rw [Program.place, hplace]
      cases taken <;> rfl
    simp only [operate?, hjump]
    rfl
  all_goals cases ho

theorem halted_operate? {p : Program} {op : Operator} {m m' : Machine}
    (h : i.operate? p op m = some m') : m'.halted = m.halted := by
  cases i
  case mathi | math | bitwi | bitw | condj =>
    obtain ⟨f, -, rfl⟩ := Option.map_eq_some_iff.1 h
    simp [Machine.goto]
  all_goals cases h

end Instruction

/-! ### Steps -/

namespace Emulator

variable {e : Emulator} {q : Program} {ws : List Word} {i : Instruction} {o : OperatorRef}

/-- **The operator that is executed.**  When an emulator comes to an instruction of its program that
has an operator, the operator is known.  If it has a meaning in the class of the mnemonic, the step
does what it means.  In any case the step does what an operator of that class with the same code
means, and if there is none, it fails and names the code. -/
theorem step_operator (hq : q.encode = .ok ws) (hwords : e.words = ws.toArray)
    (hat : q.At e.machine.pc i) (ho : i.operator? = some o) (hrun : e.machine.halted = false)
    (hlimit : e.steps < e.limit) :
    ∃ op, o.resolve = .ok op ∧
      (∀ m, i.operate? q op e.machine = some m →
        e.step = (.ok true, { e with machine := m, steps := e.steps + 1 })) ∧
      (∀ op' m, op'.code = op.code → i.operate? q op' e.machine = some m →
        e.step = (.ok true, { e with machine := m, steps := e.steps + 1 })) ∧
      ((∀ op', op'.code = op.code → i.operate? q op' e.machine = none) →
        e.step = (.error (.invalidOperator e.machine.pc i.mnemonic op.code),
          { e with steps := e.steps + 1 })) := by
  obtain ⟨w, hw, hencode⟩ := hat.exists_word hq
  have hword : e.words[e.machine.pc]? = some w := by simpa [hwords] using hw
  have hstep := step_of_decode? hrun hlimit hword (Program.decode?_encodeInstruction hencode)
  obtain ⟨op, hop, hoperates⟩ := Instruction.operatesBy_effect hencode ho
  have hsame : ∀ op' m, op'.code = op.code → i.operate? q op' e.machine = some m →
      e.step = (.ok true, { e with machine := m, steps := e.steps + 1 }) := by
    intro op' m hcode hm
    rw [hstep, (hoperates e.machine).operated op' m hcode hm]
    simp [Instruction.halted_operate? hm, hrun]
  refine ⟨op, hop, fun m => hsame op m rfl, hsame, fun hnone => ?_⟩
  rw [hstep, (hoperates e.machine).refused hnone]

/-- A difference is executed as one.  No arithmetic operator has the code of `&`, so a `math` that
has been written with it is refused. -/
theorem step_operator_math :
    let loaded : Machine := (({} : Machine).put ⟨0, 1⟩ 4).put ⟨0, 2⟩ 10
    let less : Instruction := .math 0 3 1 (.symbol "-") 2
    let both : Instruction := .math 0 3 1 (.symbol "&") 2
    let q : Program := { statements := #[⟨less, none⟩, ⟨both, none⟩] }
    let ws : List Word := [0x5002461100000000, 0x5000061100000000]
    let e (pc : Nat) : Emulator := { words := ws.toArray, machine := loaded.goto pc }
    q.encode = .ok ws ∧
      (∃ m, (e 0).step = (.ok true, { e 0 with machine := m, steps := 1 }) ∧
        m.get ⟨0, 3⟩ = 4 - 10) ∧
      (e 1).step = (.error (.invalidOperator 1 .math 0), { e 1 with steps := 1 }) := by
  intro loaded less both q ws e
  have hencode : q.encode = .ok ws := by decide +kernel
  refine ⟨hencode, ?_, ?_⟩
  · obtain ⟨op, hop, hown, -, -⟩ := step_operator (e := e 0) (i := less) (o := .symbol "-") hencode
      rfl ⟨none, rfl⟩ rfl (by decide +kernel) (by decide)
    obtain rfl : op = .sub := by
      cases hop
      rfl
    exact ⟨_, hown _ rfl, by decide +kernel⟩
  · obtain ⟨op, hop, -, -, hrefused⟩ := step_operator (e := e 1) (i := both) (o := .symbol "&")
      hencode rfl ⟨none, rfl⟩ rfl (by decide +kernel) (by decide)
    obtain rfl : op = .and := by
      cases hop
      rfl
    refine hrefused fun op' hcode => ?_
    cases op' <;> simp [Operator.code] at hcode <;> rfl

/-- A comparison is no operator of `bitw`, and is executed as the conjunction that has its code. -/
theorem step_foreignOperator :
    let i : Instruction := .bitw 0 3 1 (.symbol ">") 2
    let q : Program := { statements :=
      #[⟨.regwi 0 1 6, none⟩, ⟨.regwi 0 2 3, none⟩, ⟨i, none⟩, ⟨.halt, none⟩] }
    ∃ ws, q.encode = .ok ws ∧
      let e := (stepsOf step 2 (ofWords ws)).2
      q.At e.machine.pc i ∧ i.operate? q .gt e.machine = none ∧ e.step.1 = .ok true ∧
        ∃ m, i.operate? q .and e.machine = some m ∧
          e.step.2.machine.get ⟨0, 3⟩ = m.get ⟨0, 3⟩ ∧ m.get ⟨0, 3⟩ = 6 &&& 3 := by
  intro i q
  let ws : List Word :=
    [0x1900020000000006, 0x1900040000000003, 0x5500061100000000, 0x3f00000000000000]
  have hencode : q.encode = .ok ws := by decide +kernel
  exact ⟨ws, hencode, ⟨none, by decide +kernel⟩, rfl, by decide +kernel, _, rfl,
    by decide +kernel, by decide +kernel⟩

end Emulator
end PulseProcessor
