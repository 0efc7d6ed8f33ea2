import Mathlib.Data.List.Forall2
import Mathlib.Data.Nat.Digits.Defs
import PulseProcessor.Proofs.Text.Digits

/-! # Numerals

`IsNumeral` says what digits are and what they stand for, without a word on how they are read: a
digit of value `d` is the character that is written for `d`, or its capital, and a numeral is the
sum of its digits, each weighed by its place.

An unsigned number is read exactly from the numerals below the bound, with or without a plus sign
in front (`readUnsigned_eq_ok_iff`).  The sign is one character, and digits have to follow it.
-/

namespace PulseProcessor.Text

variable {base bound n d : Nat} {c : Char} {cs : List Char} {ds : List Nat}

/-- **The character is a digit of a base**, with a value: it is written for the value, or it is the
capital of what is. -/
def IsDigit (base : Nat) (c : Char) (d : Nat) : Prop :=
  d < base ∧ (c = d.digitChar ∨ c = d.digitChar.toUpper)

instance : DecidableRel (IsDigit base) := fun c d =>
  inferInstanceAs (Decidable (d < base ∧ (c = d.digitChar ∨ c = d.digitChar.toUpper)))

/-- **Digits of a base stand for a number.**  There is at least one, and the first weighs most. -/
structure IsNumeral (base : Nat) (cs : List Char) (n : Nat) : Prop where
  ne_nil : cs ≠ []
  digits : ∃ ds, List.Forall₂ (IsDigit base) cs ds ∧ Nat.ofDigits base ds.reverse = n

/-! ### Digits -/

/-- All digits come early among the characters, so that they can be looked at one by one. -/
theorem toNat_lt_of_digitValue (h : digitValue c = some d) : c.toNat < 103 := by
  have hle (x : Char) (hx : c ≤ x) : c.toNat ≤ x.toNat := hx
  unfold digitValue at h
  split at h
  · rename_i hc
    exact Nat.lt_of_le_of_lt (hle '9' hc.2) (by decide)
  split at h
  · rename_i hc
    exact Nat.lt_of_le_of_lt (hle 'f' hc.2) (by decide)
  split at h
  · rename_i hc
    exact Nat.lt_of_le_of_lt (hle 'F' hc.2) (by decide)
  · contradiction

theorem isDigit_of_digitValue (h : digitValue c = some d) : IsDigit 16 c d := by
  have hall : ∀ n < 103, ∀ d ∈ digitValue (Char.ofNat n), IsDigit 16 (Char.ofNat n) d := by decide
  have hc := hall c.toNat (toNat_lt_of_digitValue h)
  rw [Char.ofNat_toNat] at hc
  exact hc d h

theorem digitValue_toUpper : ∀ d < 16, digitValue d.digitChar.toUpper = some d := by decide

/-- **A character is read as a digit exactly if it is one.** -/
theorem digit?_eq_some_iff (hbase : base ≤ 16) : digit? base c = some d ↔ IsDigit base c d := by
  rw [digit?, Option.filter_eq_some_iff, decide_eq_true_eq]
  constructor
  · rintro ⟨hvalue, hlt⟩
    exact ⟨hlt, (isDigit_of_digitValue hvalue).2⟩
  · rintro ⟨hlt, hc⟩
    have hlt' : d < 16 := Nat.lt_of_lt_of_le hlt hbase
    rcases hc with rfl | rfl
    · exact ⟨digitValue_digitChar d hlt', hlt⟩
    · exact ⟨digitValue_toUpper d hlt', hlt⟩

/-- A sign is no digit. -/
theorem not_isDigit_plus (hbase : base ≤ 16) : ¬ IsDigit base '+' d := by
  rw [← digit?_eq_some_iff hbase]
  intro h
  contradiction

/-! ### Numbers -/

/-- Each member has a counterpart exactly if there is a list of counterparts. -/
theorem forall_exists_iff {α β : Type} {R : α → β → Prop} {xs : List α} :
    (∀ x ∈ xs, ∃ y, R x y) ↔ ∃ ys, List.Forall₂ R xs ys := by
  induction xs with
  | nil => simp
  | cons x xs ih =>
    rw [List.forall_mem_cons, ih]
    constructor
    · rintro ⟨⟨y, hy⟩, ys, hys⟩
      exact ⟨y :: ys, .cons hy hys⟩
    · rintro ⟨_, _ | ⟨hy, hys⟩⟩
      exact ⟨⟨_, hy⟩, _, hys⟩

theorem forall_isSome_iff (hbase : base ≤ 16) :
    (∀ c ∈ cs, (digit? base c).isSome = true) ↔ ∃ ds, List.Forall₂ (IsDigit base) cs ds := by
  simp only [← forall_exists_iff, ← digit?_eq_some_iff hbase, Option.isSome_iff_exists]

/-- **Reading digit after digit weighs each of them by its place.** -/
theorem numberOf_eq_ofDigits (hbase : base ≤ 16) (h : List.Forall₂ (IsDigit base) cs ds) (n : Nat) :
    numberOf base n cs = n * base ^ cs.length + Nat.ofDigits base ds.reverse := by
  induction h generalizing n with
  | nil => simp [numberOf]
  | @cons c d cs ds hd hds ih =>
    have hstep : numberOf base n (c :: cs) = numberOf base (n * base + d) cs := by
      simp [numberOf, (digit?_eq_some_iff hbase).2 hd]
    rw [hstep, ih, List.reverse_cons, Nat.ofDigits_append, Nat.ofDigits_singleton,
      List.length_reverse, ← hds.length_eq, List.length_cons]
    ring

/-- **Digits are read exactly if they stand for a number below the bound**, as that number. -/
theorem readDigits_eq_ok_iff_isNumeral (hbase : 0 < base) (hbase' : base ≤ 16) (hbound : 0 < bound)
    (hne : cs ≠ []) :
    readDigits base bound cs 0 = .ok n ↔ IsNumeral base cs n ∧ n < bound := by
  rw [readDigits_eq_ok_iff hbase hbound, forall_isSome_iff hbase']
  constructor
  · rintro ⟨⟨ds, hds⟩, hn, hlt⟩
    rw [numberOf_eq_ofDigits hbase' hds, Nat.zero_mul, Nat.zero_add] at hn
    exact ⟨⟨hne, ds, hds, hn⟩, hlt⟩
  · rintro ⟨⟨-, ds, hds, hn⟩, hlt⟩
    refine ⟨⟨ds, hds⟩, ?_, hlt⟩
    rw [numberOf_eq_ofDigits hbase' hds, Nat.zero_mul, Nat.zero_add, hn]

/-- A text without the plus sign in front of it, if there is one. -/
def withoutPlus : List Char → List Char
  | '+' :: cs => cs
  | cs => cs

theorem withoutPlus_of_ne (hc : c ≠ '+') (cs : List Char) : withoutPlus (c :: cs) = c :: cs := by
  unfold withoutPlus
  split
  · simp_all
  · rfl

/-- A sign alone is read as no number, and neither is nothing. -/
theorem readUnsigned_of_withoutPlus_eq_nil (h : withoutPlus cs = []) :
    readUnsigned base bound cs ≠ .ok n := by
  cases cs with
  | nil => exact nofun
  | cons c cs =>
    by_cases hc : c = '+'
    · subst hc
      obtain rfl : cs = [] := h
      exact nofun
    · rw [withoutPlus_of_ne hc] at h
      contradiction

theorem readUnsigned_of_withoutPlus_ne_nil (h : withoutPlus cs ≠ []) :
    readUnsigned base bound cs = readDigits base bound (withoutPlus cs) 0 := by
  cases cs with
  | nil => contradiction
  | cons c cs =>
    by_cases hc : c = '+'
    · subst hc
      cases cs with
      | nil => contradiction
      | cons c' cs => rfl
    · rw [readUnsigned_cons hc, withoutPlus_of_ne hc]

/-- **What an unsigned number is read from**: a numeral below the bound, and a plus sign in front of
it makes no difference. -/
theorem readUnsigned_eq_ok_iff (hbase : 0 < base) (hbase' : base ≤ 16) (hbound : 0 < bound) :
    readUnsigned base bound cs = .ok n ↔ IsNumeral base (withoutPlus cs) n ∧ n < bound := by
  by_cases hempty : withoutPlus cs = []
  · exact iff_of_false (readUnsigned_of_withoutPlus_eq_nil hempty) fun h => h.1.ne_nil hempty
  · rw [readUnsigned_of_withoutPlus_ne_nil hempty,
      readDigits_eq_ok_iff_isNumeral hbase hbase' hbound hempty]

end PulseProcessor.Text
