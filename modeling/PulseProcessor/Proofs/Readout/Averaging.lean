import Mathlib.Algebra.BigOperators.Group.Finset.Basic
import Mathlib.Order.Interval.Finset.Nat
import PulseProcessor.Proofs.Readout.Draining
import PulseProcessor.Readout.Averages

/-! # Averages of a stream

The samples of several readouts come in chunks that follow one another (`CutFrom`).  Whatever their
lengths are, the averages depend only on how many shots have been taken up (`Averages.after`): a
chunk leads from the averages after `n` shots to those after `n + chunk.length`, because it is
taken up one shot after the other.  When all shots have been taken up, every point has the sums of
its own shots, which are a block of the stream (`Averages.binned`).
-/

namespace PulseProcessor.Readout

open Finset (Ico)

variable {sample : Nat → Nat → Sample} {values : Nat → Sample} {readouts : List Nat}
  {reps points n p : Nat} {shots : Finset Nat}

/-- **Chunks that the samples of several readouts are cut into**, from one shot on. -/
def CutFrom (sample : Nat → Nat → Sample) (readouts : List Nat) : Nat → List Chunk → Prop
  | _, [] => True
  | first, chunk :: chunks =>
    chunk.samples =
        (readouts.map fun readout => (List.range' first chunk.length).map (sample readout)) ∧
      CutFrom sample readouts (first + chunk.length) chunks

/-! ### Sums -/

/-- The sum of the samples with the given numbers. -/
def Total.ofShots (values : Nat → Sample) (shots : Finset Nat) : Total where
  i := ∑ s ∈ shots, (values s).i.toInt
  q := ∑ s ∈ shots, (values s).q.toInt

theorem Total.ofShots_insert (h : n ∉ shots) :
    Total.ofShots values (insert n shots) = (Total.ofShots values shots).add (values n) := by
  simp only [Total.ofShots, Total.add, Finset.sum_insert h, Int.add_comm]

namespace Averages

/-- **The averages of all shots**: `reps` of them to each point, one point after the other. -/
def binned (sample : Nat → Nat → Sample) (readouts : List Nat) (points reps : Nat) : Averages where
  reps
  shots := reps * points
  sums := readouts.map fun readout => Array.ofFn fun p : Fin points =>
    Total.ofShots (sample readout) (Ico (p * reps) ((p + 1) * reps))

/-! ### Some of the shots -/

/-- The shots below `n` that belong to a point. -/
def shotsAt (reps points n p : Nat) : Finset Nat := {s ∈ Finset.range n | pointOf reps points s = p}

/-- The sums of a readout after `n` shots. -/
def sumsAfter (values : Nat → Sample) (reps points n : Nat) : Array Total :=
  Array.ofFn fun p : Fin points => Total.ofShots values (shotsAt reps points n p)

/-- The averages after `n` shots. -/
def after (sample : Nat → Nat → Sample) (readouts : List Nat) (reps points n : Nat) :
    Averages where
  reps
  shots := n
  sums := readouts.map fun readout => sumsAfter (sample readout) reps points n

theorem shotsAt_succ : shotsAt reps points (n + 1) p =
    if pointOf reps points n = p then insert n (shotsAt reps points n p)
    else shotsAt reps points n p := by
  rw [shotsAt, Finset.range_add_one, Finset.filter_insert]
  rfl

@[simp] theorem size_sumsAfter : (sumsAfter values reps points n).size = points :=
  Array.size_ofFn

/-- One more shot goes to its own point and to no other. -/
theorem modify_sumsAfter :
    (sumsAfter values reps points n).modify (pointOf reps points n) (·.add (values n)) =
      sumsAfter values reps points (n + 1) := by
  refine Array.ext (by simp) fun p hp hp' => ?_
  have hnew : n ∉ shotsAt reps points n p := by simp [shotsAt]
  rw [Array.getElem_modify]
  simp only [sumsAfter, Array.getElem_ofFn, shotsAt_succ]
  split
  · rw [Total.ofShots_insert hnew]
  · rfl

/-- **Samples of a readout are taken up as the shots that they belong to.** -/
theorem addSamples_sumsAfter (length : Nat) :
    addSamples reps n (sumsAfter values reps points n) ((List.range' n length).map values) =
      sumsAfter values reps points (n + length) := by
  induction length generalizing n with
  | zero => rfl
  | succ length ih =>
    rw [List.range'_succ, List.map_cons, addSamples, size_sumsAfter, modify_sumsAfter, ih,
      Nat.add_right_comm, Nat.add_assoc]

/-- **A chunk is taken up for all readouts alike.** -/
theorem add_after {chunk : Chunk} (h : chunk.samples =
    readouts.map fun readout => (List.range' n chunk.length).map (sample readout)) :
    (after sample readouts reps points n).add chunk =
      after sample readouts reps points (n + chunk.length) := by
  simp only [add, after, h, List.zipWith_map, List.zipWith_self, addSamples_sumsAfter]

/-- **Only the number of the shots matters**, not the chunks that they come in. -/
theorem foldl_add_after {chunks : List Chunk} (h : CutFrom sample readouts n chunks) :
    chunks.foldl add (after sample readouts reps points n) =
      after sample readouts reps points (n + total chunks) := by
  induction chunks generalizing n with
  | nil => rfl
  | cons chunk chunks ih =>
    rw [List.foldl_cons, add_after h.1, ih h.2, total, Nat.add_assoc]

/-! ### None and all of the shots -/

theorem after_zero (hreps : 1 ≤ reps) :
    after sample readouts reps (max 1 points) 0 = empty readouts.length points reps := by
  have hsums (readout : Nat) :
      sumsAfter (sample readout) reps (max 1 points) 0 = Array.replicate (max 1 points) {} := by
    refine Array.ext (by simp) fun p _ _ => ?_
    simp [sumsAfter, shotsAt, Total.ofShots]
  simp only [after, empty, hsums, Nat.max_eq_right hreps, List.map_const']

/-- **The shots of a point are a block of the stream.** -/
theorem shotsAt_mul (hreps : 1 ≤ reps) (hp : p < points) :
    shotsAt reps points (reps * points) p = Ico (p * reps) ((p + 1) * reps) := by
  ext s
  simp only [shotsAt, Finset.mem_filter, Finset.mem_range, Finset.mem_Ico]
  rw [pointOf, Nat.mul_comm reps points, ← Nat.div_lt_iff_lt_mul hreps,
    ← Nat.div_lt_iff_lt_mul hreps, ← Nat.le_div_iff_mul_le hreps]
  omega

theorem after_mul (hreps : 1 ≤ reps) :
    after sample readouts reps points (reps * points) = binned sample readouts points reps := by
  have hsums (readout : Nat) : sumsAfter (sample readout) reps points (reps * points) =
      Array.ofFn fun p : Fin points =>
        Total.ofShots (sample readout) (Ico (p * reps) ((p + 1) * reps)) := by
    simp only [sumsAfter, shotsAt_mul hreps (Fin.isLt _)]
  simp only [after, binned, hsums]

/-- There is one point at least. -/
theorem empty_max_one (readouts points reps : Nat) :
    empty readouts (max 1 points) reps = empty readouts points reps := by
  rw [empty, empty, show max 1 (max 1 points) = max 1 points by omega]

/-- **Averages do not depend on how a stream is cut.** -/
theorem foldl_add_empty {chunks : List Chunk} (hreps : 1 ≤ reps) (hpoints : 1 ≤ points)
    (hcut : CutFrom sample readouts 0 chunks) (htotal : total chunks = reps * points) :
    chunks.foldl add (empty readouts.length points reps) = binned sample readouts points reps := by
  rw [← after_zero hreps, Nat.max_eq_right hpoints, foldl_add_after hcut, htotal, Nat.zero_add,
    after_mul hreps]

end Averages
end PulseProcessor.Readout
