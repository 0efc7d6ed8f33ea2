import PulseProcessor.Isa.Field

/-! # What a field gives back

A pattern that fits its field is read back as it was placed, fields that do not overlap do not see
each other, and an immediate's pattern stands for the written value up to multiples of `2 ^ 31`.
-/

namespace PulseProcessor.Isa

/-! ### Powers of two as shifts -/

theorem one_shiftLeft_pos (n : Nat) : 0 < 1 <<< n := by
  rw [Nat.one_shiftLeft]
  exact Nat.two_pow_pos n

theorem one_shiftLeft_dvd {m n : Nat} (h : m ≤ n) : 1 <<< m ∣ 1 <<< n := by
  rw [Nat.one_shiftLeft, Nat.one_shiftLeft]
  exact Nat.pow_dvd_pow 2 h

theorem one_shiftLeft_le {m n : Nat} (h : m ≤ n) : 1 <<< m ≤ 1 <<< n :=
  Nat.le_of_dvd (one_shiftLeft_pos n) (one_shiftLeft_dvd h)

/-- A number of `n` bits has no others. -/
theorem testBit_of_lt {a n i : Nat} (h : a < 1 <<< n) (hi : n ≤ i) : a.testBit i = false := by
  have hlt := Nat.lt_of_lt_of_le h (one_shiftLeft_le hi)
  rw [Nat.one_shiftLeft] at hlt
  exact Nat.testBit_lt_two_pow hlt

namespace Field

variable {f g : Field}

/-- A bit belongs to the field. -/
theorem testBit_mask (h : f.offset + f.width ≤ 56) (i : Nat) :
    f.mask.toNat.testBit i = (decide (f.offset ≤ i) && decide (i < f.offset + f.width)) := by
  have hones : (1 <<< f.width - 1) % 2 ^ 64 = 2 ^ f.width - 1 := by
    rw [Nat.one_shiftLeft]
    apply Nat.mod_eq_of_lt
    have := Nat.pow_le_pow_right (n := 2) (by decide) (show f.width ≤ 56 by omega)
    omega
  have hoffset : f.offset % 2 ^ 64 % 64 = f.offset := by omega
  simp only [mask, UInt64.toNat_shiftLeft, UInt64.toNat_ofNat', hones, hoffset,
    Nat.testBit_mod_two_pow, Nat.testBit_shiftLeft, Nat.testBit_two_pow_sub_one]
  rw [Bool.eq_iff_iff]
  simp only [Bool.and_eq_true, decide_eq_true_eq]
  omega

theorem testBit_place (h : f.offset + f.width ≤ 56) {raw : Word}
    (hraw : raw.toNat < 1 <<< f.width) (i : Nat) :
    (f.place raw).toNat.testBit i =
      (decide (f.offset ≤ i) && raw.toNat.testBit (i - f.offset)) := by
  have hoffset : f.offset % 2 ^ 64 % 64 = f.offset := by omega
  simp only [place, UInt64.toNat_and, UInt64.toNat_shiftLeft, UInt64.toNat_ofNat', hoffset,
    Nat.testBit_and, Nat.testBit_mod_two_pow, Nat.testBit_shiftLeft, testBit_mask h]
  by_cases hi : i < f.offset + f.width
  · rw [decide_eq_true hi, decide_eq_true (show i < 64 by omega)]
    cases decide (f.offset ≤ i) <;> simp
  · simp [testBit_of_lt hraw (show f.width ≤ i - f.offset by omega)]

theorem extract_or (a b : Word) : f.extract (a ||| b) = f.extract a ||| f.extract b := by
  have hand : (a ||| b) &&& f.mask = (a &&& f.mask) ||| (b &&& f.mask) := by
    apply UInt64.toNat_inj.1
    apply Nat.eq_of_testBit_eq
    intro i
    simp only [UInt64.toNat_and, UInt64.toNat_or, Nat.testBit_and, Nat.testBit_or,
      Bool.and_or_distrib_right]
  rw [extract, hand, UInt64.shiftRight_or, extract, extract]

/-- A pattern that fits the field is read back. -/
theorem extract_place (h : f.offset + f.width ≤ 56) {raw : Word}
    (hraw : raw.toNat < 1 <<< f.width) : f.extract (f.place raw) = raw := by
  apply UInt64.toNat_inj.1
  apply Nat.eq_of_testBit_eq
  intro i
  have hoffset : f.offset % 2 ^ 64 % 64 = f.offset := by omega
  simp only [extract, UInt64.toNat_shiftRight, UInt64.toNat_and, UInt64.toNat_ofNat', hoffset,
    Nat.testBit_shiftRight, Nat.testBit_and, testBit_place h hraw, testBit_mask h]
  rw [decide_eq_true (show f.offset ≤ f.offset + i by omega),
    show f.offset + i - f.offset = i by omega]
  by_cases hi : i < f.width
  · simp [hi]
  · simp [hi, testBit_of_lt hraw (Nat.not_lt.1 hi)]

/-- A field reads nothing from what another one holds. -/
theorem extract_place_of_disjoint (h : g.mask &&& f.mask = 0) (raw : Word) :
    f.extract (g.place raw) = 0 := by
  rw [extract, place, UInt64.and_assoc, h]
  simp

/-- A field below the opcode byte leaves it alone. -/
theorem place_shiftRight (h : f.offset + f.width ≤ 56) {raw : Word}
    (hraw : raw.toNat < 1 <<< f.width) : f.place raw >>> 56 = 0 := by
  apply UInt64.toNat_inj.1
  apply Nat.eq_of_testBit_eq
  intro i
  -- Above the opcode byte's lowest bit the pattern has run out.
  have hzero := testBit_of_lt hraw (show f.width ≤ 56 + i - f.offset by omega)
  simp [UInt64.toNat_shiftRight, Nat.testBit_shiftRight, testBit_place h hraw, hzero]

end Field

namespace FieldKind

variable {k : FieldKind} {v : Int} {raw : Word}

theorem pattern?_eq_some_iff : k.pattern? v = some raw ↔
    k.Fits v ∧ UInt64.ofNat (v % (1 <<< k.width : Nat)).toNat = raw := by
  simp [pattern?]

theorem width_le (k : FieldKind) : k.width ≤ 31 := by cases k <;> decide

theorem toNat_pattern? (h : k.pattern? v = some raw) :
    (raw.toNat : Int) = v % (1 <<< k.width : Nat) := by
  obtain ⟨-, rfl⟩ := pattern?_eq_some_iff.1 h
  have hpow := one_shiftLeft_le k.width_le
  have hpos := one_shiftLeft_pos k.width
  have hnonneg := Int.emod_nonneg v (b := (1 <<< k.width : Nat)) (by omega)
  have hlt := Int.emod_lt_of_pos v (b := (1 <<< k.width : Nat)) (by omega)
  rw [UInt64.toNat_ofNat']
  omega

theorem toNat_pattern?_lt (h : k.pattern? v = some raw) : raw.toNat < 1 <<< k.width := by
  have hpos := one_shiftLeft_pos k.width
  have hlt := Int.emod_lt_of_pos v (b := (1 <<< k.width : Nat)) (by omega)
  rw [← toNat_pattern? h] at hlt
  omega

/-- A value that is not negative is its own pattern. -/
theorem toNat_pattern?_of_nonneg (h : k.pattern? v = some raw) (hv : 0 ≤ v) :
    (raw.toNat : Int) = v := by
  rw [toNat_pattern? h]
  exact Int.emod_eq_of_lt hv (pattern?_eq_some_iff.1 h).1.2

end FieldKind

/-- Patterns of 31 bits are read with sign. -/
theorem immediateValue_of_lt {raw : Word} (h : raw.toNat < 1 <<< 31) :
    immediateValue raw = (raw.toNat : Int).bmod (1 <<< 31) := by
  have hint : raw.toInt64.toInt = raw.toNat := by
    have := raw.toInt64.toInt_toBitVec
    rw [← this, UInt64.toBitVec_toInt64, BitVec.toInt_eq_toNat_cond]
    simp only [UInt64.toNat_toBitVec]
    split <;> omega
  have hbit : raw.toNat.testBit 30 = decide (1 <<< 30 ≤ raw.toNat) := by
    rw [Nat.testBit_eq_decide_div_mod_eq, decide_eq_decide]
    omega
  rw [immediateValue, hint, hbit, Int.bmod, show 1 <<< 31 = 2147483648 from rfl]
  simp only [decide_eq_true_eq]
  split <;> split <;> omega

/-- An immediate is read back up to multiples of `2 ^ 31`. -/
theorem immediateValue_pattern? {v : Int} {raw : Word}
    (h : FieldKind.immediate.pattern? v = some raw) :
    immediateValue raw = v.bmod (1 <<< 31) := by
  rw [immediateValue_of_lt (FieldKind.toNat_pattern?_lt h), FieldKind.toNat_pattern? h]
  exact Int.emod_bmod v (1 <<< 31)

/-- An immediate that keeps its value when it is read with sign. -/
def Narrow (v : Int) : Prop := -(1 <<< 30 : Nat) ≤ v ∧ v < (1 <<< 30 : Nat)

instance (v : Int) : Decidable (Narrow v) := by unfold Narrow; infer_instance

theorem Narrow.bmod {v : Int} (h : Narrow v) : v.bmod (1 <<< 31) = v := by
  obtain ⟨hle, hlt⟩ := h
  exact Int.bmod_eq_of_le (by omega) (by omega)

end PulseProcessor.Isa
