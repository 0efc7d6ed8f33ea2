import PulseProcessor.Proofs.Assembly.Encoding
import PulseProcessor.Proofs.Assembly.Parts
import PulseProcessor.Proofs.Assembly.Tidy
import PulseProcessor.Proofs.Listing.Token

/-! # What a listing keeps of a program

A listing keeps mnemonics, operands and labels; of an operator it keeps the symbol
(`Instruction.named`).  Nothing more is needed: every operand of a program that encodes can be
written and read (`Program.readable_of_encode`), and the program encodes to the same words with
symbols for its operators (`Program.encode_named`).
-/

namespace PulseProcessor

open Isa (Mnemonic FieldKind Operator)

variable {p q : Program} {o : Operand} {pc : Nat} {ws : List Word}

/-! ### What encodes can be read -/

/-- A value that fits some field is short enough for the reader. -/
theorem Isa.FieldKind.Fits.natAbs_lt {k : FieldKind} {v : Int} (h : k.Fits v) :
    v.natAbs < Text.signedBound := by
  obtain ⟨hlow, hhigh⟩ := h
  have hbound : Text.signedBound = 9223372036854775808 := rfl
  cases k <;> simp [FieldKind.least, FieldKind.width] at hlow hhigh <;> omega

namespace Program

theorem readable_of_operandValue {m : Mnemonic} {v : Int} {k : FieldKind} (hp : p.Tidy)
    (hv : p.operandValue pc m o = .ok v) (hk : k.Fits v) : o.Readable := by
  cases o with
  | int v' =>
    cases hv
    exact hk.natAbs_lt
  | reg n => trivial
  | label name =>
    by_cases hname : ∀ l ∈ p.labels.toList, l.1 ≠ name
    · simp [operandValue, labelPc?_eq_none_iff.2 hname] at hv
    · simp only [Classical.not_forall, Decidable.not_not] at hname
      obtain ⟨l, hl, rfl⟩ := hname
      exact hp.name l hl
  | op o =>
    obtain ⟨op, hop, -⟩ := map_eq_ok_iff.1 hv
    exact ⟨op, hop⟩

theorem readable_of_operandPatterns {m : Mnemonic} {k : Nat} {os : List Operand} {raws : List Word}
    (hp : p.Tidy) (h : p.operandPatterns pc m k os = .ok raws) : ∀ o ∈ os, o.Readable := by
  induction os generalizing k raws with
  | nil => simp
  | cons o os ih =>
    obtain ⟨raw, rest, hraw, hrest, -⟩ := operandPatterns_cons_eq_ok_iff.1 h
    obtain ⟨v, kind, hv, -, hpat⟩ := operandPattern_eq_ok_iff.1 hraw
    have hfits : kind.Fits v := by
      by_cases hfits : kind.Fits v
      · exact hfits
      · rw [FieldKind.pattern?_eq_none_iff.2 hfits] at hpat
        contradiction
    intro o' ho'
    rcases List.mem_cons.1 ho' with rfl | ho'
    · exact readable_of_operandValue hp hv hfits
    · exact ih hrest o' ho'

/-- **Every operand of a program that encodes can be read back.** -/
theorem readable_of_encode (hp : p.Tidy) (h : p.encode = .ok ws) :
    ∀ s ∈ p.statements.toList, ∀ o ∈ s.instruction.operands, o.Readable := by
  intro s hs
  obtain ⟨k, hk⟩ := List.getElem?_of_mem hs
  obtain ⟨w, -, hw⟩ := exists_word h (k := k) (s := s) (by simpa using hk)
  obtain ⟨raws, hraws, -⟩ := encodeInstruction_eq_ok_iff.1 hw
  exact readable_of_operandPatterns hp hraws

end Program

/-! ### The same code -/

/-- The instruction that a listing gives back. -/
def Instruction.named : Instruction → Instruction
  | mathi page dst src op imm => mathi page dst src (.symbol op.text) imm
  | bitwi page dst src op imm => bitwi page dst src (.symbol op.text) imm
  | condj page lhs op rhs target => condj page lhs (.symbol op.text) rhs target
  | math page dst lhs op rhs => math page dst lhs (.symbol op.text) rhs
  | read channel page op reg => read channel page (.symbol op.text) reg
  | bitw page dst lhs op rhs => bitw page dst lhs (.symbol op.text) rhs
  | i => i

namespace Instruction

@[simp] theorem mnemonic_named (i : Instruction) : i.named.mnemonic = i.mnemonic := by
  cases i <;> rfl

@[simp] theorem operands_named (i : Instruction) :
    i.named.operands = i.operands.map Operand.named := by
  cases i <;> rfl

/-- **Mnemonic and operands make the instruction again.** -/
theorem ofNamedParts_named (i : Instruction) :
    ofNamedParts i.mnemonic.name (i.operands.map Operand.named) = .ok i.named := by
  rw [ofNamedParts, Mnemonic.ofName?_name, ← operands_named, ← mnemonic_named]
  exact ofParts_operands i.named

end Instruction

/-! ### The same words -/

theorem OperatorRef.resolve_symbol (o : OperatorRef) : (symbol o.text).resolve = o.resolve := by
  cases o with
  | known op => simp only [resolve, text, Operator.ofSymbol?_symbol]
  | symbol s => rfl

namespace Program

theorem operandValue_named (hlabels : q.labels = p.labels) (pc : Nat) (m : Mnemonic) (o : Operand) :
    q.operandValue pc m o.named = p.operandValue pc m o := by
  cases o with
  | int v => rfl
  | reg n => rfl
  | label name => simp only [Operand.named, operandValue, labelPc?, hlabels]
  | op o => simp only [Operand.named, operandValue, o.resolve_symbol]

theorem operandPatterns_named (hlabels : q.labels = p.labels) (pc : Nat) (m : Mnemonic) (k : Nat)
    (os : List Operand) :
    q.operandPatterns pc m k (os.map Operand.named) = p.operandPatterns pc m k os := by
  induction os generalizing k with
  | nil => rfl
  | cons o os ih =>
    simp only [List.map_cons, operandPatterns, operandPattern, operandValue_named hlabels, ih]

theorem encodeInstruction_named (hlabels : q.labels = p.labels) (pc : Nat) (i : Instruction) :
    q.encodeInstruction pc i.named = p.encodeInstruction pc i := by
  simp only [encodeInstruction, Instruction.mnemonic_named, Instruction.operands_named,
    operandPatterns_named hlabels]

theorem encodeFrom_named (hlabels : q.labels = p.labels) {ss ss' : List Statement}
    (hcode : ss'.map (·.instruction) = ss.map (·.instruction.named)) :
    q.encodeFrom pc ss' = p.encodeFrom pc ss := by
  induction ss generalizing pc ss' with
  | nil =>
    obtain rfl := List.map_eq_nil_iff.1 hcode
    rfl
  | cons s ss ih =>
    cases ss' with
    | nil => contradiction
    | cons s' ss' =>
      obtain ⟨hs, hss⟩ := List.cons.inj hcode
      dsimp only at hs
      rw [encodeFrom, encodeFrom, ih hss, hs, encodeInstruction_named hlabels]

/-- **With the same labels and the same code, operators as symbols, the words are the same.** -/
theorem encode_named (hlabels : q.labels = p.labels)
    (hcode : q.statements.toList.map (·.instruction) =
      p.statements.toList.map (·.instruction.named)) : q.encode = p.encode :=
  encodeFrom_named hlabels hcode

end Program
end PulseProcessor
