import PulseProcessor.Decimal.Fixed
import PulseProcessor.Readout.Basic
import PulseProcessor.Text.Columns

/-!
# Averages of a readout

The samples of a readout belong to the points of a sweep, the same number of shots to each. Their
sums are kept for each drained readout and each point, while the chunks come in.
-/

namespace PulseProcessor.Readout

/-- A sum of samples. -/
structure Total where
  i : Int := 0
  q : Int := 0
  deriving DecidableEq, Repr

def Total.add (t : Total) (s : Sample) : Total := ⟨t.i + s.i.toInt, t.q + s.q.toInt⟩

/-- Sums of samples by readout and sweep point. -/
structure Averages where
  /-- Shots at each point. -/
  reps : Nat
  /-- For each drained readout the sums at the points. -/
  sums : List (Array Total)
  /-- Shots taken up so far. -/
  shots : Nat := 0
  deriving DecidableEq, Repr

namespace Averages

/-- No shots yet. There is at least one point, and at least one shot at each. -/
def empty (readouts points reps : Nat) : Averages :=
  { reps := max 1 reps, sums := List.replicate readouts (Array.replicate (max 1 points) {}) }

/-- The point that a shot belongs to, of so many. Shots behind the end count for the last one. -/
def pointOf (reps points shot : Nat) : Nat := min (shot / reps) (points - 1)

/-- Takes up the samples of one readout, the first of which belongs to the given shot. -/
def addSamples (reps shot : Nat) (sums : Array Total) : List Sample → Array Total
  | [] => sums
  | s :: rest =>
    addSamples reps (shot + 1) (sums.modify (pointOf reps sums.size shot) (·.add s)) rest

/-- Takes up a chunk. -/
def add (a : Averages) (c : Chunk) : Averages :=
  { a with
    sums := List.zipWith (addSamples a.reps a.shots) a.sums c.samples
    shots := a.shots + c.length }

/-! ### Report -/

/-- A point with its mean I and Q. -/
def pointLine (reps : Nat) (label : String) (t : Total) : String :=
  let mean (v : Int) : String :=
    Text.alignRight 14 (Decimal.fixed 2 (Float.ofInt v / Float.ofNat reps))
  s!"{Text.alignRight 12 label}: I = {mean t.i}  Q = {mean t.q}"

/-- The name of a point: the gain swept there, or else its number. -/
def label (gains : List UInt32) (point : Nat) : String :=
  match gains[point]? with
  | some g => s!"gain {g}"
  | none => toString point

/-- The report, line by line, for the readouts with the given numbers. -/
def report (a : Averages) (readouts : List Nat) (gains : List UInt32) : List String :=
  (readouts.zip a.sums).flatMap fun (readout, sums) =>
    "" :: s!"Readout {readout}" :: sums.toList.zipIdx.map fun (t, point) =>
      pointLine a.reps (label gains point) t

end Averages
end PulseProcessor.Readout
