import PulseProcessor.Proofs.Assembly.Extension
import PulseProcessor.Proofs.Emulator.Execution

/-! # Loading constants

One instruction writes 31 bits with sign.  `Program.loadConstant` writes any constant that its words
can carry, in up to three instructions, and what stands in the register in the end is the constant
modulo `2 ^ 32` (`Program.executes_loadConstant`).
-/

namespace PulseProcessor

open Isa (Operator)

/-! ### Words as integers -/

theorem toNat_ofInt (v : Int) : ((UInt32.ofInt v).toNat : Int) = v % 4294967296 := by
  have h := Int.emod_nonneg v (b := 4294967296) (by decide)
  have h' := Int.emod_lt_of_pos v (b := 4294967296) (by decide)
  rw [UInt32.ofInt, UInt32.toNat_ofNat']
  omega

theorem ofInt_eq_iff {x : UInt32} {v : Int} : x = .ofInt v ↔ (x.toNat : Int) = v % 4294967296 := by
  rw [← UInt32.toNat_inj, ← toNat_ofInt]
  omega

/-- A constant is put together from its quarter, of which 31 bits count, and its two low bits. -/
theorem ofInt_quarter_of_emod {v w : Int} (h : w % 2147483648 = v / 4 % 2147483648) :
    (UInt32.ofInt w <<< 2) + .ofInt (v % 4) = .ofInt v := by
  have hquarter := toNat_ofInt w
  have hlow := toNat_ofInt (v % 4)
  rw [ofInt_eq_iff, UInt32.toNat_add, UInt32.toNat_shiftLeft,
    show (2 : UInt32).toNat % 32 = 2 from rfl, Nat.shiftLeft_eq]
  omega

theorem ofInt_quarter (v : Int) :
    (UInt32.ofInt ((v / 4).bmod (1 <<< 31)) <<< 2) + .ofInt (v % 4) = .ofInt v :=
  ofInt_quarter_of_emod Int.bmod_emod

/-! ### Executing the load -/

namespace Program

variable {p q : Program} {ws : List Word} {r : Register} {v : Int} {comment : Option String}

/-- The instructions of a load. -/
theorem at_loadConstant (h : (p.loadConstant r.page r.number v comment).Extends q) :
    (Isa.Narrow v ∧ q.At p.size (.regwi r.page r.number v) ∧
        (p.loadConstant r.page r.number v comment).size = p.size + 1) ∨
      q.At p.size (.regwi r.page r.number (v / 4)) ∧
        q.At (p.size + 1) (.bitwi r.page r.number r.number (.known .shl) 2) ∧
        (v % 4 = 0 ∧ (p.loadConstant r.page r.number v comment).size = p.size + 2 ∨
          q.At (p.size + 2) (.mathi r.page r.number r.number (.known .add) (v % 4)) ∧
            (p.loadConstant r.page r.number v comment).size = p.size + 3) := by
  unfold loadConstant at h ⊢
  by_cases hsmall : v.natAbs < 1 <<< 30
  · rw [if_pos hsmall] at h ⊢
    exact .inl ⟨⟨by omega, by omega⟩, (at_append ..).extends h, size_append ..⟩
  · rw [if_neg hsmall] at h ⊢
    dsimp only at h ⊢
    refine .inr ?_
    by_cases hlow : v % 4 = 0
    · rw [if_pos hlow] at h ⊢
      refine ⟨(at_append ..).extends ((extends_append ..).trans h), ?_, .inl ⟨hlow, by simp⟩⟩
      simpa using (at_append ..).extends h
    · rw [if_neg hlow] at h ⊢
      have h' := (extends_append ..).trans h
      refine ⟨(at_append ..).extends ((extends_append ..).trans h'), ?_, .inr ⟨?_, by simp⟩⟩
      · simpa using (at_append ..).extends h'
      · simpa using (at_append ..).extends h

/-- **A constant that has been loaded is in its register.** -/
theorem passage_loadConstant (hq : q.encode = .ok ws) (hr : r.Valid)
    (h : (p.loadConstant r.page r.number v comment).Extends q) {m : Machine}
    (hrun : m.halted = false) :
    ∃ ms, Machine.Passage ws.toArray m p.size (m.put r (.ofInt v))
      (p.loadConstant r.page r.number v comment).size ms := by
  rcases at_loadConstant h with ⟨hsmall, hat, hsize⟩ | ⟨hquarter, hshift, hlow⟩
  · rw [hsize]
    have hnext := hat.next?_regwi hq hrun
    rw [hsmall.bmod] at hnext
    exact ⟨_, .single hnext⟩
  · have hnext := hquarter.next?_regwi hq hrun
    have hboth := (Machine.Passage.single hnext).trans
      (.single (hshift.next?_bitwi_put hq hr hrun rfl))
    have hvalue := ofInt_quarter v
    rcases hlow with ⟨hzero, hsize⟩ | ⟨hadd, hsize⟩
    · rw [hzero, show UInt32.ofInt 0 = 0 from rfl, UInt32.add_zero] at hvalue
      rw [hsize, ← hvalue]
      exact ⟨_, hboth⟩
    · have hnext'' := hadd.next?_mathi hq
        (m := m.put r (UInt32.ofInt ((v / 4).bmod (1 <<< 31)) <<< 2)) (by simpa using hrun)
      have hlow : Isa.Narrow (v % 4) := ⟨by omega, by omega⟩
      rw [Machine.get_put_self hr, Machine.put_put_self, hlow.bmod, hvalue] at hnext''
      rw [hsize]
      exact ⟨_, hboth.trans (.single hnext'')⟩

end Program
end PulseProcessor
