/-! # Checks that stop at the first fault

What is wrong with a list is what is wrong with its first element that has a fault.  Computations
that go through a list and stop when they fail are compared with such a search: `fault?` says what a
computation fails with, and goes through binds (`fault?_bind`).
-/

namespace PulseProcessor

variable {ε α β : Type} {x : Except ε α} {e : ε}

/-- What a computation fails with. -/
def fault? : Except ε α → Option ε
  | .ok _ => none
  | .error e => some e

theorem fault?_eq_some_iff : fault? x = some e ↔ x = .error e := by
  cases x <;> simp [fault?]

theorem fault?_eq_none_iff : fault? x = none ↔ ∃ a, x = .ok a := by
  cases x <;> simp [fault?]

@[simp] theorem fault?_map (f : α → β) (x : Except ε α) : fault? (x.map f) = fault? x := by
  cases x <;> rfl

/-- Of two computations the second one is heard only if the first one succeeds. -/
theorem fault?_bind {f : α → Except ε β} {first second : Option ε} (hx : fault? x = first)
    (hf : ∀ a, fault? (f a) = second) : fault? (x >>= f) = first.or second := by
  subst hx
  cases x with
  | error e => rfl
  | ok a => exact hf a

/-- What a check says of the first element of a list that it complains about, elements being counted
from `k`. -/
def firstFault? (check : Nat → α → Option ε) (k : Nat) (as : List α) : Option ε :=
  (as.zipIdx k).findSome? fun ak => check ak.2 ak.1

variable {check : Nat → α → Option ε} {k : Nat} {a : α} {as : List α}

@[simp] theorem firstFault?_nil : firstFault? check k [] = none := rfl

@[simp] theorem firstFault?_cons :
    firstFault? check k (a :: as) = (check k a).or (firstFault? check (k + 1) as) := by
  rw [firstFault?, List.zipIdx_cons, List.findSome?_cons]
  cases check k a <;> rfl

theorem firstFault?_eq_none_iff :
    firstFault? check k as = none ↔ ∀ j a, as[j]? = some a → check (k + j) a = none := by
  induction as generalizing k with
  | nil => simp
  | cons a as ih =>
    rw [firstFault?_cons, Option.or_eq_none_iff, ih]
    constructor
    · rintro ⟨ha, has⟩ j b hb
      cases j with
      | zero =>
        obtain rfl : a = b := by simpa using hb
        exact ha
      | succ j =>
        rw [Nat.add_comm j, ← Nat.add_assoc]
        exact has j b (by simpa using hb)
    · intro h
      refine ⟨h 0 a rfl, fun j b hb => ?_⟩
      rw [Nat.add_assoc, Nat.add_comm 1]
      exact h (j + 1) b (by simpa using hb)

/-- **The fault that is told belongs to an element, and no element before it has one.** -/
theorem firstFault?_eq_some_iff : firstFault? check k as = some e ↔
    ∃ j a, as[j]? = some a ∧ check (k + j) a = some e ∧
      ∀ i < j, ∀ b, as[i]? = some b → check (k + i) b = none := by
  induction as generalizing k with
  | nil => simp
  | cons a as ih =>
    rw [firstFault?_cons, Option.or_eq_some_iff, ih]
    constructor
    · rintro (ha | ⟨ha, j, b, hb, hfault, hbefore⟩)
      · exact ⟨0, a, rfl, ha, fun i hi => absurd hi (Nat.not_lt_zero i)⟩
      · refine ⟨j + 1, b, by simpa using hb, ?_, fun i hi c hc => ?_⟩
        · rwa [Nat.add_comm j, ← Nat.add_assoc]
        · cases i with
          | zero =>
            obtain rfl : a = c := by simpa using hc
            exact ha
          | succ i =>
            rw [Nat.add_comm i, ← Nat.add_assoc]
            exact hbefore i (by omega) c (by simpa using hc)
    · rintro ⟨j, b, hb, hfault, hbefore⟩
      cases j with
      | zero =>
        obtain rfl : a = b := by simpa using hb
        exact .inl hfault
      | succ j =>
        refine .inr ⟨hbefore 0 (by omega) a rfl, j, b, by simpa using hb, ?_, fun i hi c hc => ?_⟩
        · rwa [Nat.add_assoc, Nat.add_comm 1]
        · rw [Nat.add_assoc, Nat.add_comm 1]
          exact hbefore (i + 1) (by omega) c (by simpa using hc)

end PulseProcessor
