import PulseProcessor.Decimal.Fixed
import PulseProcessor.Text.Columns

/-!
# Timings of a readout

The gaps between consecutive chunks, and the sizes of the chunks. A gap that comes close to the
time in which the board fills its buffers shows that the stride is too large.
-/

namespace PulseProcessor.Readout

/-- Width of a bucket of the histogram, in microseconds. -/
def bucketWidth : Nat := 500

/-- Buckets of the histogram. The last one has no upper end. -/
def bucketCount : Nat := 20

/-- Statistics over the chunks of a readout. Times are in nanoseconds. -/
structure Timings where
  /-- The shortest gap; none before the first chunk. -/
  minGap : Option Nat := none
  maxGap : Nat := 0
  sumGap : Nat := 0
  chunks : Nat := 0
  /-- Samples of each readout over all chunks. -/
  samples : Nat := 0
  /-- Samples in the longest chunk. -/
  maxLength : Nat := 0
  /-- Gaps by length. -/
  histogram : Vector Nat bucketCount := Vector.replicate bucketCount 0
  /-- When the latest chunk came. -/
  last : Nat := 0

namespace Timings

/-- The bucket that a gap falls into. -/
def bucket (gap : Nat) : Fin bucketCount :=
  ⟨min (gap / (bucketWidth * 1000)) (bucketCount - 1), by simp only [bucketCount]; omega⟩

/-- Takes up a chunk that came `elapsed` nanoseconds after the start. Where time seems to run
backwards there is no gap. -/
def add (t : Timings) (elapsed length : Nat) : Timings :=
  let gap := elapsed - t.last
  { minGap := some (min (t.minGap.getD gap) gap)
    maxGap := max t.maxGap gap
    sumGap := t.sumGap + gap
    chunks := t.chunks + 1
    samples := t.samples + length
    maxLength := max t.maxLength length
    histogram := t.histogram.set (bucket gap) (t.histogram[bucket gap] + 1)
    last := elapsed }

/-- The mean gap; zero before the first chunk. -/
def meanGap (t : Timings) : Float :=
  if t.chunks = 0 then 0 else Float.ofNat t.sumGap / Float.ofNat t.chunks

/-! ### Report -/

/-- Nanoseconds as microseconds with two decimals. -/
def micros (ns : Float) : String := Decimal.fixed 2 (ns / 1000) ++ " us"

/-- A bucket with its limits in microseconds and its count. -/
def bucketLine (i count : Nat) : String :=
  let limit (n : Nat) : String := Text.alignRight 5 (toString (n * bucketWidth))
  let mark := if i + 1 = bucketCount then ">" else ""
  s!"[{limit i}-{limit (i + 1)}{mark} us]: {count}"

/-- The lines of the buckets that are not empty. -/
def histogramLines (t : Timings) : List String :=
  t.histogram.toList.zipIdx.filterMap fun (count, i) =>
    if count = 0 then none else some (bucketLine i count)

/-- The report, line by line. -/
def report (t : Timings) : List String :=
  ["", "Chunk Timing", s!"Chunks:     {t.chunks}", s!"Samples:    {t.samples}",
    s!"Max chunk:  {t.maxLength}"] ++
  if t.chunks = 0 then []
  else
    ["Min gap:    " ++ micros (Float.ofNat (t.minGap.getD 0)),
      "Avg gap:    " ++ micros t.meanGap,
      "Max gap:    " ++ micros (Float.ofNat t.maxGap),
      s!"Distribution ({bucketWidth}us buckets):"] ++ t.histogramLines

end Timings
end PulseProcessor.Readout
