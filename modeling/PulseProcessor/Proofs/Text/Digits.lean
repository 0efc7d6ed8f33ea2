import Mathlib.Algebra.Group.Nat.Defs
import PulseProcessor.Text.Digits

/-! # Numbers read back from their digits

What is written as a number in some base is read as that number, as long as it stays below the
reader's bound.
-/

namespace PulseProcessor.Text

variable {base bound n d : Nat}

theorem digitValue_digitChar : ∀ d < 16, digitValue (Nat.digitChar d) = some d := by decide

theorem digit?_digitChar (hbase : base ≤ 16) (hd : d < base) :
    digit? base (Nat.digitChar d) = some d := by
  rw [digit?, digitValue_digitChar d (by omega)]
  simpa using hd

theorem readDigits_append (xs ys : List Char) (n : Nat) :
    readDigits base bound (xs ++ ys) n =
      (readDigits base bound xs n).bind (readDigits base bound ys) := by
  induction xs generalizing n with
  | nil => rfl
  | cons c xs ih =>
    simp only [List.cons_append, readDigits]
    cases digit? base c with
    | none => rfl
    | some d =>
      dsimp only
      split
      · exact ih _
      · rfl

/-- **The digits of a number below the bound are read as that number.** -/
theorem readDigits_toDigits (hbase : 1 < base) (hbase' : base ≤ 16) (hn : n < bound) :
    readDigits base bound (Nat.toDigits base n) 0 = .ok n := by
  induction n using Nat.strongRecOn with
  | ind n ih =>
    by_cases hlt : n < base
    · rw [Nat.toDigits_of_lt_base hlt]
      simp [readDigits, digit?_digitChar hbase' hlt, hn]
    · have hdiv : n / base < n := Nat.div_lt_self (by omega) hbase
      have hmod : n % base < base := Nat.mod_lt n (by omega)
      have hjoin : n / base * base + n % base = n := by
        rw [Nat.mul_comm]
        exact Nat.div_add_mod n base
      rw [Nat.toDigits_of_base_le hbase (by omega), readDigits_append, ih _ hdiv (by omega)]
      simp [Except.bind, readDigits, digit?_digitChar hbase' hmod, hjoin, hn]

/-- **As many digits as a number has are read as that number.** -/
theorem readDigits_fixedDigits (hbase : 0 < base) (hbase' : base ≤ 16) {count : Nat}
    (hn : n < base ^ count) (hbound : n < bound) :
    readDigits base bound (fixedDigits base count n) 0 = .ok n := by
  induction count generalizing n with
  | zero =>
    obtain rfl : n = 0 := by simpa using hn
    rfl
  | succ count ih =>
    have hdiv : n / base < base ^ count := Nat.div_lt_of_lt_mul (by rwa [← Nat.pow_succ'])
    have hle : n / base ≤ n := Nat.div_le_self n base
    have hmod : n % base < base := Nat.mod_lt n hbase
    have hjoin : n / base * base + n % base = n := Nat.div_add_mod' n base
    rw [fixedDigits, readDigits_append, ih hdiv (by omega)]
    simp [Except.bind, readDigits, digit?_digitChar hbase' hmod, hjoin, hbound]

theorem exists_of_mem_fixedDigits (hbase : 0 < base) {count : Nat} {c : Char}
    (h : c ∈ fixedDigits base count n) : ∃ d < base, c = Nat.digitChar d := by
  induction count generalizing n with
  | zero => simp [fixedDigits] at h
  | succ count ih =>
    rcases List.mem_append.1 h with h | h
    · exact ih h
    · exact ⟨n % base, Nat.mod_lt n hbase, List.mem_singleton.1 h⟩

theorem readUnsigned_cons {c : Char} (hc : c ≠ '+') (cs : List Char) :
    readUnsigned base bound (c :: cs) = readDigits base bound (c :: cs) 0 := by
  unfold readUnsigned
  split <;> simp_all

theorem digit?_isSome_of_mem_toDigits (hbase : 1 < base) (hbase' : base ≤ 16) :
    ∀ c ∈ Nat.toDigits base n, (digit? base c).isSome = true := by
  induction n using Nat.strongRecOn with
  | ind n ih =>
    intro c hc
    by_cases hlt : n < base
    · rw [Nat.toDigits_of_lt_base hlt, List.mem_singleton] at hc
      rw [hc, digit?_digitChar hbase' hlt]
      rfl
    · rw [Nat.toDigits_of_base_le hbase (by omega), List.mem_append, List.mem_singleton] at hc
      rcases hc with hc | rfl
      · exact ih _ (Nat.div_lt_self (by omega) hbase) c hc
      · rw [digit?_digitChar hbase' (Nat.mod_lt n (by omega))]
        rfl

/-! ### What digits stand for -/

/-- The number that digits stand for, behind a number read so far. -/
def numberOf (base n : Nat) (cs : List Char) : Nat :=
  cs.foldl (fun n c => n * base + (digit? base c).getD 0) n

theorem le_numberOf (hbase : 0 < base) (n : Nat) (cs : List Char) : n ≤ numberOf base n cs := by
  induction cs generalizing n with
  | nil => exact Nat.le_refl n
  | cons c cs ih =>
    have hle : n ≤ n * base + (digit? base c).getD 0 :=
      Nat.le_trans (Nat.le_mul_of_pos_right n hbase) (Nat.le_add_right ..)
    exact Nat.le_trans hle (ih _)

/-- **Digits are read exactly if they are digits and stand for a number below the bound.**  A number
read so far only grows, so it stays below the bound if the last one does. -/
theorem readDigits_eq_ok_iff (hbase : 0 < base) {cs : List Char} {m : Nat} (hn : n < bound) :
    readDigits base bound cs n = .ok m ↔
      (∀ c ∈ cs, (digit? base c).isSome = true) ∧ numberOf base n cs = m ∧ m < bound := by
  induction cs generalizing n with
  | nil =>
    simp only [readDigits, Except.ok.injEq, numberOf, List.foldl_nil]
    constructor
    · rintro rfl
      exact ⟨by simp, rfl, hn⟩
    · exact fun h => h.2.1
  | cons c cs ih =>
    cases hc : digit? base c with
    | none => simp [readDigits, hc]
    | some d =>
      have hcons : numberOf base n (c :: cs) = numberOf base (n * base + d) cs := by
        simp [numberOf, hc]
      rw [readDigits, hc, hcons]
      dsimp only
      by_cases hlt : n * base + d < bound
      · rw [if_pos hlt, ih hlt]
        simp [hc]
      · have hle := le_numberOf hbase (n * base + d) cs
        rw [if_neg hlt]
        constructor
        · intro h
          contradiction
        · rintro ⟨-, rfl, hm⟩
          omega

end PulseProcessor.Text
