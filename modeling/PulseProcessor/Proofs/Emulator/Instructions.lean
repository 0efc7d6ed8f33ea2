import PulseProcessor.Emulator.Semantics
import PulseProcessor.Proofs.Assembly.Packing

/-! # What the word of each instruction does

`Machine.effect` looks at the operand patterns of a word.  Here is the same for the word of a given
instruction, in terms of the operands that were written: one lemma for each instruction that can be
executed, with the bounds that acceptance has put on its numbers.

Immediates come back up to multiples of `2 ^ 31`, so as `Int.bmod v (1 <<< 31)`; operators come back
as their codes.
-/

namespace PulseProcessor

open Isa (Mnemonic Operator Decoded immediateValue)

namespace Program

variable {p : Program} {pc k : Nat} {w : Word} {i : Instruction}

theorem immediateValue_operand (h : p.encodeInstruction pc i = .ok w) {v : Int}
    (ho : i.operands[k]? = some (.int v)) (hk : i.mnemonic.layout.kind? k = some .immediate) :
    immediateValue (Decoded.operand ⟨i.mnemonic, w⟩ k) = v.bmod (1 <<< 31) :=
  Isa.immediateValue_pattern? (pattern?_operand_int h ho hk)

theorem immediateWord_operand (h : p.encodeInstruction pc i = .ok w) {v : Int}
    (ho : i.operands[k]? = some (.int v)) (hk : i.mnemonic.layout.kind? k = some .immediate) :
    immediateWord (Decoded.operand ⟨i.mnemonic, w⟩ k) = .ofInt (v.bmod (1 <<< 31)) := by
  rw [immediateWord, immediateValue_operand h ho hk]
  rfl

/-- An address that is not negative is found as it was written. -/
theorem toNat_operand_address (h : p.encodeInstruction pc i = .ok w) {v : Int} (hv : 0 ≤ v)
    (ho : i.operands[k]? = some (.int v)) (hk : i.mnemonic.layout.kind? k = some .immediate) :
    (Decoded.operand ⟨i.mnemonic, w⟩ k).toNat = v.toNat := by
  have := Isa.FieldKind.toNat_pattern?_of_nonneg (pattern?_operand_int h ho hk) hv
  omega

theorem ofNat_operand_channel (h : p.encodeInstruction pc i = .ok w) {n : UInt8}
    (ho : i.operands[k]? = some (Instruction.small n))
    (hk : i.mnemonic.layout.kind? k = some .channel) :
    UInt8.ofNat (Decoded.operand ⟨i.mnemonic, w⟩ k).toNat = n := by
  rw [(toNat_operand_channel h ho hk).1]
  exact UInt8.ofNat_toNat

end Program

namespace Machine

variable {p : Program} {pc : Nat} {w : Word} {page reg dst src lhs rhs channel : UInt8}
  {imm t : Int} {op : OperatorRef} {target : String}

/-- A value, or the complaint about the code of an operator. -/
def demand {α : Type} (s : Machine) (m : Mnemonic) (code : Nat) :
    Option α → Except EmulatorError α
  | some a => .ok a
  | none => .error (.invalidOperator s.pc m code)

/-- The effect of writing a word of memory. -/
def storeEffect (s : Machine) (addr : Nat) (v : UInt32) : Except EmulatorError Effect :=
  if h : addr < 1024 then .ok (.store addr h v) else .error (.memoryOutOfRange s.pc addr)

/-- The effect of reading a word of memory into a register. -/
def loadEffect (s : Machine) (page reg addr : Nat) : Except EmulatorError Effect :=
  match s.load? addr with
  | some v => .ok (.write page reg v)
  | none => .error (.memoryOutOfRange s.pc addr)

/-! ### Registers and constants -/

theorem effect_regwi (h : p.encodeInstruction pc (.regwi page reg imm) = .ok w) :
    page.toNat < 8 ∧ reg.toNat < 32 ∧ ∀ s : Machine, s.effect ⟨.regwi, w⟩ =
      .ok (.write page.toNat reg.toNat (.ofInt (imm.bmod (1 <<< 31)))) := by
  obtain ⟨h0, hp⟩ := Program.toNat_operand_page h (k := 0) rfl rfl
  obtain ⟨h1, hr⟩ := Program.toNat_operand_reg h (k := 1) rfl rfl
  have h2 := Program.immediateWord_operand h (k := 2) rfl rfl
  refine ⟨hp, hr, fun s => ?_⟩
  simp only [effect, Instruction.mnemonic] at *
  rw [h0, h1, h2]

/-! ### Operators -/

theorem effect_mathi (h : p.encodeInstruction pc (.mathi page dst src op imm) = .ok w) :
    page.toNat < 8 ∧ dst.toNat < 32 ∧ src.toNat < 32 ∧ ∃ o, op.resolve = .ok o ∧
      ∀ s : Machine, s.effect ⟨.mathi, w⟩ =
        (s.demand .mathi o.code (arithmetic? o.code (s.read page.toNat src.toNat)
          (.ofInt (imm.bmod (1 <<< 31))))).map (.write page.toNat dst.toNat) := by
  obtain ⟨h0, hp⟩ := Program.toNat_operand_page h (k := 0) rfl rfl
  obtain ⟨h1, hd⟩ := Program.toNat_operand_reg h (k := 1) rfl rfl
  obtain ⟨h2, hs⟩ := Program.toNat_operand_reg h (k := 2) rfl rfl
  obtain ⟨o, ho, h3⟩ := Program.toNat_operand_op h (k := 3) rfl
  have h4 := Program.immediateWord_operand h (k := 4) rfl rfl
  refine ⟨hp, hd, hs, o, ho, fun s => ?_⟩
  simp only [effect, Instruction.mnemonic] at *
  rw [h0, h1, h2, h3, h4]
  rfl

theorem effect_math (h : p.encodeInstruction pc (.math page dst lhs op rhs) = .ok w) :
    page.toNat < 8 ∧ dst.toNat < 32 ∧ lhs.toNat < 32 ∧ rhs.toNat < 32 ∧
      ∃ o, op.resolve = .ok o ∧ ∀ s : Machine, s.effect ⟨.math, w⟩ =
        (s.demand .math o.code (arithmetic? o.code (s.read page.toNat lhs.toNat)
          (s.read page.toNat rhs.toNat))).map (.write page.toNat dst.toNat) := by
  obtain ⟨h0, hp⟩ := Program.toNat_operand_page h (k := 0) rfl rfl
  obtain ⟨h1, hd⟩ := Program.toNat_operand_reg h (k := 1) rfl rfl
  obtain ⟨h2, hl⟩ := Program.toNat_operand_reg h (k := 2) rfl rfl
  obtain ⟨o, ho, h3⟩ := Program.toNat_operand_op h (k := 3) rfl
  obtain ⟨h4, hr⟩ := Program.toNat_operand_reg h (k := 4) rfl rfl
  refine ⟨hp, hd, hl, hr, o, ho, fun s => ?_⟩
  simp only [effect, Instruction.mnemonic] at *
  rw [h0, h1, h2, h3, h4]
  rfl

theorem effect_bitwi (h : p.encodeInstruction pc (.bitwi page dst src op imm) = .ok w) :
    page.toNat < 8 ∧ dst.toNat < 32 ∧ src.toNat < 32 ∧ ∃ o, op.resolve = .ok o ∧
      ∀ s : Machine, s.effect ⟨.bitwi, w⟩ =
        (s.demand .bitwi o.code (bitwise? o.code (s.read page.toNat src.toNat)
          (.ofInt (imm.bmod (1 <<< 31))))).map (.write page.toNat dst.toNat) := by
  obtain ⟨h0, hp⟩ := Program.toNat_operand_page h (k := 0) rfl rfl
  obtain ⟨h1, hd⟩ := Program.toNat_operand_reg h (k := 1) rfl rfl
  obtain ⟨h2, hs⟩ := Program.toNat_operand_reg h (k := 2) rfl rfl
  obtain ⟨o, ho, h3⟩ := Program.toNat_operand_op h (k := 3) rfl
  have h4 := Program.immediateWord_operand h (k := 4) rfl rfl
  refine ⟨hp, hd, hs, o, ho, fun s => ?_⟩
  simp only [effect, Instruction.mnemonic] at *
  rw [h0, h1, h2, h3, h4]
  rfl

theorem effect_bitw (h : p.encodeInstruction pc (.bitw page dst lhs op rhs) = .ok w) :
    page.toNat < 8 ∧ dst.toNat < 32 ∧ lhs.toNat < 32 ∧ rhs.toNat < 32 ∧
      ∃ o, op.resolve = .ok o ∧ ∀ s : Machine, s.effect ⟨.bitw, w⟩ =
        (s.demand .bitw o.code (bitwise? o.code (s.read page.toNat lhs.toNat)
          (s.read page.toNat rhs.toNat))).map (.write page.toNat dst.toNat) := by
  obtain ⟨h0, hp⟩ := Program.toNat_operand_page h (k := 0) rfl rfl
  obtain ⟨h1, hd⟩ := Program.toNat_operand_reg h (k := 1) rfl rfl
  obtain ⟨h2, hl⟩ := Program.toNat_operand_reg h (k := 2) rfl rfl
  obtain ⟨o, ho, h3⟩ := Program.toNat_operand_op h (k := 3) rfl
  obtain ⟨h4, hr⟩ := Program.toNat_operand_reg h (k := 4) rfl rfl
  refine ⟨hp, hd, hl, hr, o, ho, fun s => ?_⟩
  simp only [effect, Instruction.mnemonic] at *
  rw [h0, h1, h2, h3, h4]
  rfl

/-! ### Memory -/

theorem effect_memwi (h : p.encodeInstruction pc (.memwi page reg imm) = .ok w) (hv : 0 ≤ imm) :
    page.toNat < 8 ∧ reg.toNat < 32 ∧ ∀ s : Machine, s.effect ⟨.memwi, w⟩ =
      s.storeEffect imm.toNat (s.read page.toNat reg.toNat) := by
  obtain ⟨h0, hp⟩ := Program.toNat_operand_page h (k := 0) rfl rfl
  obtain ⟨h1, hr⟩ := Program.toNat_operand_reg h (k := 1) rfl rfl
  have h2 := Program.toNat_operand_address h hv (k := 2) rfl rfl
  refine ⟨hp, hr, fun s => ?_⟩
  simp only [Instruction.mnemonic] at h0 h1 h2
  simp only [effect, storeEffect, h0, h1, h2]

theorem effect_memri (h : p.encodeInstruction pc (.memri page reg imm) = .ok w) (hv : 0 ≤ imm) :
    page.toNat < 8 ∧ reg.toNat < 32 ∧ ∀ s : Machine, s.effect ⟨.memri, w⟩ =
      s.loadEffect page.toNat reg.toNat imm.toNat := by
  obtain ⟨h0, hp⟩ := Program.toNat_operand_page h (k := 0) rfl rfl
  obtain ⟨h1, hr⟩ := Program.toNat_operand_reg h (k := 1) rfl rfl
  have h2 := Program.toNat_operand_address h hv (k := 2) rfl rfl
  refine ⟨hp, hr, fun s => ?_⟩
  simp only [effect, loadEffect, Instruction.mnemonic] at *
  rw [h0, h1, h2]
  cases s.load? imm.toNat <;> rfl

theorem effect_memw (h : p.encodeInstruction pc (.memw page src reg) = .ok w) :
    page.toNat < 8 ∧ src.toNat < 32 ∧ reg.toNat < 32 ∧ ∀ s : Machine, s.effect ⟨.memw, w⟩ =
      s.storeEffect (s.read page.toNat reg.toNat).toNat (s.read page.toNat src.toNat) := by
  obtain ⟨h0, hp⟩ := Program.toNat_operand_page h (k := 0) rfl rfl
  obtain ⟨h1, hs⟩ := Program.toNat_operand_reg h (k := 1) rfl rfl
  obtain ⟨h2, hr⟩ := Program.toNat_operand_reg h (k := 2) rfl rfl
  refine ⟨hp, hs, hr, fun s => ?_⟩
  simp only [Instruction.mnemonic] at h0 h1 h2
  simp only [effect, storeEffect, h0, h1, h2]

theorem effect_memr (h : p.encodeInstruction pc (.memr page dst reg) = .ok w) :
    page.toNat < 8 ∧ dst.toNat < 32 ∧ reg.toNat < 32 ∧ ∀ s : Machine, s.effect ⟨.memr, w⟩ =
      s.loadEffect page.toNat dst.toNat (s.read page.toNat reg.toNat).toNat := by
  obtain ⟨h0, hp⟩ := Program.toNat_operand_page h (k := 0) rfl rfl
  obtain ⟨h1, hd⟩ := Program.toNat_operand_reg h (k := 1) rfl rfl
  obtain ⟨h2, hr⟩ := Program.toNat_operand_reg h (k := 2) rfl rfl
  refine ⟨hp, hd, hr, fun s => ?_⟩
  simp only [effect, loadEffect, Instruction.mnemonic] at *
  rw [h0, h1, h2]
  cases s.load? (s.read page.toNat reg.toNat).toNat <;> rfl

/-! ### Jumps -/

theorem effect_loopnz (h : p.encodeInstruction pc (.loopnz page reg target) = .ok w) :
    page.toNat < 8 ∧ reg.toNat < 32 ∧ ∃ place, p.labelPc? target = some place ∧
      ∀ s : Machine, s.effect ⟨.loopnz, w⟩ =
        .ok (if s.read page.toNat reg.toNat = 0 then .nothing
          else .countedJump page.toNat reg.toNat (s.read page.toNat reg.toNat - 1) place) := by
  obtain ⟨h0, hp⟩ := Program.toNat_operand_page h (k := 0) rfl rfl
  obtain ⟨h1, hr⟩ := Program.toNat_operand_reg h (k := 1) rfl rfl
  refine ⟨hp, hr, _, Program.toNat_operand_label h (k := 2) rfl, fun s => ?_⟩
  simp only [effect, Instruction.mnemonic] at *
  rw [h0, h1]

theorem effect_condj (h : p.encodeInstruction pc (.condj page lhs op rhs target) = .ok w) :
    page.toNat < 8 ∧ lhs.toNat < 32 ∧ rhs.toNat < 32 ∧ ∃ o place, op.resolve = .ok o ∧
      p.labelPc? target = some place ∧ ∀ s : Machine, s.effect ⟨.condj, w⟩ =
        (s.demand .condj o.code (compare? o.code (signed (s.read page.toNat lhs.toNat))
          (signed (s.read page.toNat rhs.toNat)))).map
            fun taken => if taken then .jump place else .nothing := by
  obtain ⟨h0, hp⟩ := Program.toNat_operand_page h (k := 0) rfl rfl
  obtain ⟨h1, hl⟩ := Program.toNat_operand_reg h (k := 1) rfl rfl
  obtain ⟨o, ho, h2⟩ := Program.toNat_operand_op h (k := 2) rfl
  obtain ⟨h3, hr⟩ := Program.toNat_operand_reg h (k := 3) rfl rfl
  refine ⟨hp, hl, hr, o, _, ho, Program.toNat_operand_label h (k := 4) rfl, fun s => ?_⟩
  simp only [effect, Instruction.mnemonic] at *
  rw [h0, h1, h2, h3]
  rfl

/-! ### Times and channels -/

theorem effect_synci (h : p.encodeInstruction pc (.synci t) = .ok w) (s : Machine) :
    s.effect ⟨.synci, w⟩ = .ok (.advance (t.bmod (1 <<< 31))) := by
  have h0 := Program.immediateValue_operand h (k := 0) rfl rfl
  simp only [effect, Instruction.mnemonic] at *
  rw [h0]

theorem effect_sync (h : p.encodeInstruction pc (.sync page reg) = .ok w) :
    page.toNat < 8 ∧ reg.toNat < 32 ∧ ∀ s : Machine, s.effect ⟨.sync, w⟩ =
      .ok (.advance (s.read page.toNat reg.toNat).toNat) := by
  obtain ⟨h0, hp⟩ := Program.toNat_operand_page h (k := 0) rfl rfl
  obtain ⟨h1, hr⟩ := Program.toNat_operand_reg h (k := 1) rfl rfl
  refine ⟨hp, hr, fun s => ?_⟩
  simp only [effect, Instruction.mnemonic] at *
  rw [h0, h1]

theorem effect_seti (h : p.encodeInstruction pc (.seti channel page reg t) = .ok w) :
    page.toNat < 8 ∧ reg.toNat < 32 ∧ ∀ s : Machine, s.effect ⟨.seti, w⟩ =
      .ok (.emit (.seti channel (t.bmod (1 <<< 31) + s.timeOffset)
        (s.read page.toNat reg.toNat))) := by
  have h0 := Program.ofNat_operand_channel h (k := 0) rfl rfl
  obtain ⟨h1, hp⟩ := Program.toNat_operand_page h (k := 1) rfl rfl
  obtain ⟨h2, hr⟩ := Program.toNat_operand_reg h (k := 2) rfl rfl
  have h3 := Program.immediateValue_operand h (k := 3) rfl rfl
  refine ⟨hp, hr, fun s => ?_⟩
  simp only [effect, Instruction.mnemonic] at *
  rw [h0, h1, h2, h3]

theorem effect_set {freq phase addr gain mode time : UInt8}
    (h : p.encodeInstruction pc (.set channel page freq phase addr gain mode time) = .ok w) :
    page.toNat < 8 ∧ (∀ r ∈ [freq, phase, addr, gain, mode, time], r.toNat < 32) ∧
      ∀ s : Machine, s.effect ⟨.set, w⟩ =
        .ok (.emit (.set channel ((s.read page.toNat time.toNat).toNat + s.timeOffset)
          (s.read page.toNat freq.toNat) (s.read page.toNat phase.toNat)
          (s.read page.toNat addr.toNat) (s.read page.toNat gain.toNat)
          (s.read page.toNat mode.toNat))) := by
  have h0 := Program.ofNat_operand_channel h (k := 0) rfl rfl
  obtain ⟨h1, hp⟩ := Program.toNat_operand_page h (k := 1) rfl rfl
  obtain ⟨h2, hfreq⟩ := Program.toNat_operand_reg h (k := 2) rfl rfl
  obtain ⟨h3, hphase⟩ := Program.toNat_operand_reg h (k := 3) rfl rfl
  obtain ⟨h4, haddr⟩ := Program.toNat_operand_reg h (k := 4) rfl rfl
  obtain ⟨h5, hgain⟩ := Program.toNat_operand_reg h (k := 5) rfl rfl
  obtain ⟨h6, hmode⟩ := Program.toNat_operand_reg h (k := 6) rfl rfl
  obtain ⟨h7, htime⟩ := Program.toNat_operand_reg h (k := 7) rfl rfl
  refine ⟨hp, by simp [hfreq, hphase, haddr, hgain, hmode, htime], fun s => ?_⟩
  simp only [effect, Instruction.mnemonic] at *
  rw [h0, h1, h2, h3, h4, h5, h6, h7]

end Machine
end PulseProcessor
