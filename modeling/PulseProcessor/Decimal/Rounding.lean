/-!
# Rounded quotients

The integer nearest to a quotient of natural numbers, and the nearest one to a number that has few
significant bits. Half a unit goes to the even neighbour.
-/

namespace PulseProcessor.Decimal

/-- The integer nearest to `num / den`; of two equally near ones, the even one. -/
def roundDiv (num den : Nat) : Nat :=
  let q := num / den
  let r := num % den
  if 2 * r < den ∨ (2 * r = den ∧ q % 2 = 0) then q else q + 1

/-- A rounded quotient is at most half a unit away. -/
theorem roundDiv_bounds (num : Nat) {den : Nat} (h : 0 < den) :
    2 * num ≤ 2 * (den * roundDiv num den) + den ∧
      2 * (den * roundDiv num den) ≤ 2 * num + den := by
  have hsplit := Nat.div_add_mod num den
  have hr := Nat.mod_lt num h
  simp only [roundDiv]
  split
  · omega
  · rw [Nat.mul_add, Nat.mul_one]
    omega

/-- A tie goes to the even neighbour. -/
theorem roundDiv_even_of_tie {num den : Nat} (h : 2 * (num % den) = den) :
    roundDiv num den % 2 = 0 := by
  simp only [roundDiv, h, Nat.lt_irrefl, false_or, true_and]
  split <;> omega

/-- The nearest number to `n` of those with no more than `bits` significant bits. -/
def roundSignificant (bits n : Nat) : Nat :=
  let unit := 1 <<< (n.log2 + 1 - bits)
  unit * roundDiv n unit

/-- A number that has no more bits stays as it is. -/
theorem roundSignificant_of_lt {bits n : Nat} (h : n < 1 <<< bits) :
    roundSignificant bits n = n := by
  by_cases hn : n = 0
  · subst hn
    have hpos : 0 < 1 <<< (1 - bits) := by
      rw [Nat.shiftLeft_eq, Nat.one_mul]
      exact Nat.two_pow_pos _
    simp [roundSignificant, roundDiv, hpos]
  · have hlog : n.log2 + 1 - bits = 0 := by
      have := (Nat.log2_lt hn).mpr (by simpa [Nat.shiftLeft_eq] using h)
      omega
    simp [roundSignificant, hlog, roundDiv, Nat.mod_one]

end PulseProcessor.Decimal
