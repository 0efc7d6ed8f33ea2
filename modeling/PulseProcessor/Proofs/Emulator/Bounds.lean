import Mathlib.Algebra.Group.Nat.Defs
import PulseProcessor.Emulator.Semantics
import PulseProcessor.Proofs.Assembly.Packing
import PulseProcessor.Proofs.Emulator.Machine

/-! # What an arbitrary word can reach

A word is executed as soon as its opcode is known, and nobody has checked its other bits.  What
they can reach is limited all the same.  An operand has no more bits than the field it is read
from, so a word names registers that exist (`Decoded.Names`) and targets that program memory has
(`Decoded.Targets`).  Of a machine an instruction sees the registers its word names and at most one
word of data memory, and it is refused if data memory has no such word (`Decoded.contained`).
-/

namespace PulseProcessor
namespace Isa

/-! ### Patterns of arbitrary words -/

/-- What is read from a field has no more bits than the field. -/
theorem Field.extract_lt {f : Field} (h : f.offset + f.width ≤ 56) (w : Word) :
    (f.extract w).toNat < 1 <<< f.width := by
  rw [Nat.one_shiftLeft]
  apply Nat.lt_pow_two_of_testBit
  intro i hi
  have hoffset : f.offset % 2 ^ 64 % 64 = f.offset := by omega
  simp only [extract, UInt64.toNat_shiftRight, UInt64.toNat_and, UInt64.toNat_ofNat', hoffset,
    Nat.testBit_shiftRight, Nat.testBit_and, testBit_mask h]
  simp [show ¬ f.offset + i < f.offset + f.width by omega]

/-- An immediate has a sign and 30 bits. -/
theorem natAbs_immediateValue_le {raw : Word} (h : raw.toNat < 1 <<< 31) :
    (immediateValue raw).natAbs ≤ 2 ^ 30 := by
  rw [immediateValue_of_lt h]
  have hle := Int.le_bmod (x := raw.toNat) (m := 1 <<< 31) (by decide)
  have hlt := Int.bmod_lt (x := raw.toNat) (m := 1 <<< 31) (by decide)
  omega

namespace Decoded

variable {d : Decoded} {i page reg target : Nat} {k : FieldKind}

theorem foldl_extract (fs : List Field) (w raw : Word) (i : Nat) :
    fs.foldl (fun raw f => if f.operand = i then f.extract w else raw) raw = raw ∨
      ∃ f ∈ fs, f.operand = i ∧
        fs.foldl (fun raw f => if f.operand = i then f.extract w else raw) raw = f.extract w := by
  induction fs generalizing raw with
  | nil => exact .inl rfl
  | cons f fs ih =>
    rw [List.foldl_cons]
    rcases ih (if f.operand = i then f.extract w else raw) with h | ⟨g, hg, hgi, h⟩
    · rw [h]
      by_cases hf : f.operand = i
      · exact .inr ⟨f, List.mem_cons_self .., hf, if_pos hf⟩
      · exact .inl (if_neg hf)
    · exact .inr ⟨g, List.mem_cons_of_mem _ hg, hgi, h⟩

/-- **An operand has no more bits than its kind**, in any word. -/
theorem operand_lt (h : d.mnemonic.layout.kind? i = some k) :
    (d.operand i).toNat < 1 <<< k.width := by
  have hsep := d.mnemonic.separated
  rcases foldl_extract d.mnemonic.layout.fields d.word 0 i with h0 | ⟨f, hf, rfl, hextract⟩
  · rw [operand, h0]
    exact one_shiftLeft_pos k.width
  · obtain rfl : f.kind = k := Option.some.inj ((hsep.kind f hf).symm.trans h)
    rw [operand, hextract]
    exact f.extract_lt (hsep.inside f hf) d.word

/-- The word names a register: one operand is its page, another one its number. -/
def Names (d : Decoded) (page reg : Nat) : Prop :=
  ∃ i j, d.mnemonic.layout.kind? i = some .page ∧ d.mnemonic.layout.kind? j = some .register ∧
    page = (d.operand i).toNat ∧ reg = (d.operand j).toNat

/-- The word names a target to jump to. -/
def Targets (d : Decoded) (target : Nat) : Prop :=
  ∃ i, d.mnemonic.layout.kind? i = some .target ∧ target = (d.operand i).toNat

theorem Names.lt (h : d.Names page reg) : page < 8 ∧ reg < 32 := by
  obtain ⟨i, j, hi, hj, rfl, rfl⟩ := h
  exact ⟨operand_lt hi, operand_lt hj⟩

theorem Targets.lt (h : d.Targets target) : target < 2 ^ 16 := by
  obtain ⟨i, hi, rfl⟩ := h
  exact operand_lt hi

end Decoded
end Isa

open Isa (Decoded immediateValue)

/-! ### Effects -/

/-- The address in data memory that an instruction reads or writes. -/
def Machine.address? (s : Machine) (d : Decoded) : Option Nat :=
  match d.mnemonic with
  | .memwi | .memri => some (d.operand 2).toNat
  | .memw | .memr => some (s.read (d.operand 0).toNat (d.operand 2).toNat).toNat
  | _ => none

/-- The effect stays within what the word names, and within 32 bits of the time there was. -/
def Effect.Within (s : Machine) (d : Decoded) : Effect → Prop
  | .nothing | .halt => True
  | .write page reg _ => d.Names page reg
  | .store addr _ _ => s.address? d = some addr
  | .jump target => d.Targets target
  | .countedJump page reg _ target => d.Names page reg ∧ d.Targets target
  | .advance dt => dt.natAbs ≤ 2 ^ 32 - 1
  | .emit e => (e.time - s.timeOffset).natAbs ≤ 2 ^ 32 - 1

namespace Machine

variable {s s' : Machine} {d : Decoded} {e : Effect} {addr : Nat}

/-- **Whatever the word, its effect stays within what it names.** -/
theorem effect_within (h : s.effect d = .ok e) : e.Within s d := by
  obtain ⟨mnemonic, word⟩ := d
  cases mnemonic
  case pushi | popi | setbi | setb | read => contradiction
  case waiti | wait | halt =>
    cases h
    trivial
  case regwi =>
    cases h
    exact ⟨0, 1, rfl, rfl, rfl, rfl⟩
  case mathi | math | bitwi | bitw | memri | memr =>
    simp only [effect] at h
    split at h
    · cases h
      exact ⟨0, 1, rfl, rfl, rfl, rfl⟩
    · contradiction
  case memwi | memw =>
    simp only [effect] at h
    split at h
    · cases h
      rfl
    · contradiction
  case loopnz =>
    simp only [effect, Except.ok.injEq] at h
    split at h <;> subst h
    · trivial
    · exact ⟨⟨0, 1, rfl, rfl, rfl, rfl⟩, 2, rfl, rfl⟩
  case condj =>
    simp only [effect] at h
    split at h
    · rename_i taken _
      cases taken <;> cases h
      · trivial
      · exact ⟨4, rfl, rfl⟩
    · contradiction
  case set =>
    cases h
    have := (s.read (Decoded.operand ⟨.set, word⟩ 1).toNat
      (Decoded.operand ⟨.set, word⟩ 7).toNat).toNat_lt
    simp only [Effect.Within, Event.time]
    omega
  case seti =>
    cases h
    have := Isa.natAbs_immediateValue_le (Decoded.operand_lt (d := ⟨.seti, word⟩) (i := 3) rfl)
    simp only [Effect.Within, Event.time]
    omega
  case synci =>
    cases h
    have := Isa.natAbs_immediateValue_le (Decoded.operand_lt (d := ⟨.synci, word⟩) (i := 0) rfl)
    simp only [Effect.Within]
    omega
  case sync =>
    cases h
    have := (s.read (Decoded.operand ⟨.sync, word⟩ 0).toNat
      (Decoded.operand ⟨.sync, word⟩ 1).toNat).toNat_lt
    simp only [Effect.Within]
    omega

/-- **An instruction sees no more of a machine than its word names**: the place it stands at, the
time, the registers and, if it has an address, the word of data memory there. -/
theorem effect_congr (hpc : s.pc = s'.pc) (htime : s.timeOffset = s'.timeOffset)
    (hreg : ∀ page reg, d.Names page reg → s.read page reg = s'.read page reg)
    (hmem : ∀ addr, s.address? d = some addr → s.load? addr = s'.load? addr) :
    s.effect d = s'.effect d := by
  have hread (i j : Nat) (hi : d.mnemonic.layout.kind? i = some .page)
      (hj : d.mnemonic.layout.kind? j = some .register) :
      s.read (d.operand i).toNat (d.operand j).toNat =
        s'.read (d.operand i).toNat (d.operand j).toNat :=
    hreg _ _ ⟨i, j, hi, hj, rfl, rfl⟩
  obtain ⟨mnemonic, word⟩ := d
  cases mnemonic
  case regwi | pushi | popi | setbi | setb | read | waiti | wait | halt | synci =>
    simp only [effect, hpc]
  case memwi | loopnz | sync => simp only [effect, hpc, hread 0 1 rfl rfl]
  case mathi | bitwi => simp only [effect, hpc, hread 0 2 rfl rfl]
  case math | bitw => simp only [effect, hpc, hread 0 2 rfl rfl, hread 0 4 rfl rfl]
  case condj => simp only [effect, hpc, hread 0 1 rfl rfl, hread 0 3 rfl rfl]
  case memw => simp only [effect, hpc, hread 0 1 rfl rfl, hread 0 2 rfl rfl]
  case memri => simp only [effect, hpc, hmem _ rfl]
  case memr =>
    -- The address is itself the value of a register that the word names.
    have haddr := hmem _ rfl
    rw [hread 0 2 rfl rfl] at haddr
    simp only [effect, hpc, hread 0 2 rfl rfl, haddr]
  case seti => simp only [effect, htime, hread 1 2 rfl rfl]
  case set =>
    simp only [effect, htime, hread 1 2 rfl rfl, hread 1 3 rfl rfl, hread 1 4 rfl rfl,
      hread 1 5 rfl rfl, hread 1 6 rfl rfl, hread 1 7 rfl rfl]

theorem load?_eq_none_iff : s.load? addr = none ↔ 1024 ≤ addr := by
  simp [load?]

/-- An address that data memory does not have is refused. -/
theorem effect_of_outOfRange (haddr : s.address? d = some addr) (h : 1024 ≤ addr) :
    s.effect d = .error (.memoryOutOfRange s.pc addr) := by
  have hload := (load?_eq_none_iff (s := s)).2 h
  have hstore := Nat.not_lt.2 h
  obtain ⟨mnemonic, word⟩ := d
  cases mnemonic <;> cases haddr
  case memwi | memw => exact dif_neg hstore
  case memri | memr =>
    simp only [effect, hload]
    rfl

end Machine

/-- **A word keeps within the machine**, whatever its bits are. -/
structure Isa.Decoded.Contained (d : Decoded) : Prop where
  /-- Registers that the word names exist. -/
  named : ∀ page reg, d.Names page reg → page < pageCount ∧ reg < registersPerPage
  /-- Nothing is read but the registers named and the word of data memory at the address. -/
  read : ∀ s s' : Machine, s.pc = s'.pc → s.timeOffset = s'.timeOffset →
    (∀ page reg, d.Names page reg → s.read page reg = s'.read page reg) →
    (∀ addr, s.address? d = some addr → s.load? addr = s'.load? addr) → s.effect d = s'.effect d
  /-- Nothing is written but a register named, or the word of data memory at the address. -/
  written : ∀ (s : Machine) e, s.effect d = .ok e → e.Within s d
  /-- An address behind the end of data memory is refused. -/
  refused : ∀ (s : Machine) addr, s.address? d = some addr → dataMemoryDepth ≤ addr →
    s.effect d = .error (.memoryOutOfRange s.pc addr)

theorem Isa.Decoded.contained (d : Decoded) : d.Contained where
  named _ _ h := h.lt
  read _ _ hpc htime hreg hmem := Machine.effect_congr hpc htime hreg hmem
  written _ _ h := Machine.effect_within h
  refused _ _ haddr h := Machine.effect_of_outOfRange haddr h

end PulseProcessor
