import PulseProcessor.Emulator.Machine
import PulseProcessor.Pulse.Sequencer

/-! # Timelines

What a sequence of calls asks for, without programs and registers.  A `Timeline` knows the sync
point in absolute time, when each channel becomes free, the parameters that have been written for
each channel, and the channel updates so far; each call of a sequencer takes it to another one
(`Timeline.perform`).

A channel that has nothing to play is free at time 0, as is one that has never played.
-/

namespace PulseProcessor

/-- Channel updates, and what the next ones depend on. -/
structure Timeline where
  /-- The sync point, in absolute time. -/
  offset : Int := 0
  /-- When channels become free, counted from the sync point. -/
  free : UInt8 → Int := fun _ => 0
  /-- The parameters last written. -/
  params : UInt8 → PulseRegister → UInt32 := fun _ _ => 0
  /-- The updates, in the order of the calls. -/
  events : List Event := []

namespace Timeline

/-! ### Pulses -/

/-- Writes a parameter of a channel. -/
def write (tl : Timeline) (ch : UInt8) (name : PulseRegister) (v : UInt32) : Timeline :=
  { tl with params := fun ch' name' =>
      if ch' = ch ∧ name' = name then v else tl.params ch' name' }

/-- The flags of a pulse above the length of a segment. -/
def modeWord (pulse : Pulse) (output : OutputSelect) (length : Nat) : UInt32 :=
  .ofNat ((16 * pulse.resetPhase.toNat + 8 * pulse.holdLast.toNat + 4 * pulse.periodic.toNat +
    output.code) * 65536 + length)

/-- Writes address and mode of a segment. -/
def segment (tl : Timeline) (pulse : Pulse) (addr : Int) (length : Nat) (output : OutputSelect) :
    Timeline :=
  (tl.write pulse.channel .addr (.ofInt addr)).write pulse.channel .mode
    (modeWord pulse output length)

/-- The parameters of a channel take effect at `t`. -/
def set (tl : Timeline) (ch : UInt8) (t : Int) : Timeline :=
  { tl with events := tl.events ++ [.set ch (tl.offset + t) (tl.params ch .freq)
      (tl.params ch .phase) (tl.params ch .addr) (tl.params ch .gain) (tl.params ch .mode)] }

/-- A channel is in use up to `t`. -/
def occupy (tl : Timeline) (ch : UInt8) (t : Int) : Timeline :=
  { tl with free := fun ch' => if ch' = ch then t else tl.free ch' }

/-- Writes frequency, phase and gain, and for pulses of one segment its address and mode. -/
def setup (tl : Timeline) (pulse : Pulse) : Timeline :=
  let ch := pulse.channel
  let tl := ((tl.write ch .freq (.ofInt pulse.freq)).write ch .phase (.ofInt pulse.phase)).write ch
    .gain (.ofInt pulse.gain)
  match pulse.style with
  | .constant => tl.segment pulse 0 pulse.length.toNat .dds
  | .arbitrary => tl.segment pulse pulse.addr pulse.length.toNat .product
  | .flatTop _ => tl

/-- When a pulse starts. -/
def startTime (tl : Timeline) (ch : UInt8) : Start → Int
  | .auto => tl.free ch
  | .at t => t

/-- The updates of a pulse that starts at `t`: one, or one for each of the segments of a flat-top
pulse, which are ramp, plateau and ramp. -/
def latch (tl : Timeline) (pulse : Pulse) (t : Int) : Timeline :=
  let ch := pulse.channel
  let length := pulse.length.toNat
  match pulse.style with
  | .constant | .arbitrary => tl.set ch t
  | .flatTop ramp =>
    let half := ramp.toNat / 2
    let up := (tl.segment pulse pulse.addr half .product).set ch t
    let flat := (up.segment pulse 0 length .dds).set ch (t + half)
    (flat.segment pulse (pulse.addr + half) half .product).set ch (t + half + length)

/-- Plays a pulse from `t` on. -/
def play (tl : Timeline) (pulse : Pulse) (t : Int) : Timeline :=
  (tl.latch pulse t).occupy pulse.channel (t + pulse.duration)

/-! ### Triggers -/

/-- The pattern with the given lines raised. -/
def pattern (lines : List Nat) : Nat := lines.foldr (fun line p => 1 <<< line ||| p) 0

/-- The lines of readouts and markers. -/
def lines (readouts markers : List UInt8) : List Nat :=
  readouts.map (14 + ·.toNat) ++ markers.map (·.toNat)

/-- Raises lines at `t` and lowers them `width` cycles later. -/
def trigger (tl : Timeline) (readouts markers : List UInt8) (t width : Int) : Timeline :=
  { tl with events := tl.events ++
      [.seti 0 (tl.offset + t) (.ofNat (pattern (lines readouts markers))),
       .seti 0 (tl.offset + (t + width)) 0] }

/-! ### Sync points -/

/-- The time at which all channels are free. -/
def last (tl : Timeline) : Int :=
  (List.range 256).foldl (fun t ch => max t (tl.free (.ofNat ch))) 0

/-- Moves the sync point behind everything that is played, and `extra` cycles more. -/
def sync (tl : Timeline) (extra : Int) : Timeline :=
  if 0 < tl.last + extra then
    { tl with offset := tl.offset + (tl.last + extra), free := fun _ => 0 }
  else tl

/-- Moves the sync point on, if `cycles` is positive. -/
def wait (tl : Timeline) (cycles : Int) : Timeline :=
  { tl with offset := tl.offset + max cycles 0 }

/-! ### Calls -/

/-- What a call asks for. -/
def perform (tl : Timeline) : Sequencer.Call → Timeline
  | .setup pulse => tl.setup pulse
  | .play pulse start => tl.play pulse (tl.startTime pulse.channel start)
  | .pulse pulse start => (tl.setup pulse).play pulse (tl.startTime pulse.channel start)
  | .measure pulse readouts offset start =>
    let t := tl.startTime pulse.channel start
    ((tl.trigger readouts [] (t + offset) (pulse.duration + 10)).setup pulse).play pulse t
  | .trigger readouts markers t width => tl.trigger readouts markers t width
  | .syncAll extra => tl.sync extra
  | .delay cycles => (tl.sync 0).wait cycles

/-- The timeline of a sequence of calls. -/
def ofCalls (calls : List Sequencer.Call) : Timeline := calls.foldl perform {}

/-! ### The time at which all channels are free -/

theorem foldl_max_spec (f : Nat → Int) (n : Nat) :
    0 ≤ (List.range n).foldl (fun t k => max t (f k)) 0 ∧
      (∀ k < n, f k ≤ (List.range n).foldl (fun t k => max t (f k)) 0) ∧
      ((List.range n).foldl (fun t k => max t (f k)) 0 = 0 ∨
        ∃ k < n, (List.range n).foldl (fun t k => max t (f k)) 0 = f k) := by
  induction n with
  | zero => simp
  | succ n ih =>
    rw [List.range_succ, List.foldl_append, List.foldl_cons, List.foldl_nil]
    generalize (List.range n).foldl (fun t k => max t (f k)) 0 = t at ih ⊢
    obtain ⟨hnonneg, hbound, hattained⟩ := ih
    refine ⟨by omega, fun k hk => ?_, ?_⟩
    · rcases Nat.lt_or_eq_of_le (Nat.le_of_lt_succ hk) with hlt | rfl
      · have := hbound k hlt
        omega
      · omega
    · rcases Int.le_total (f n) t with hle | hle
      · rw [Int.max_eq_left hle]
        exact hattained.imp_right fun ⟨k, hk, heq⟩ => ⟨k, Nat.lt_succ_of_lt hk, heq⟩
      · rw [Int.max_eq_right hle]
        exact .inr ⟨n, Nat.lt_succ_self n, rfl⟩

/-- **The latest of all times at which a channel becomes free**, and not before the sync point. -/
theorem last_spec (tl : Timeline) : 0 ≤ tl.last ∧ (∀ ch, tl.free ch ≤ tl.last) ∧
    (tl.last = 0 ∨ ∃ ch, tl.last = tl.free ch) := by
  obtain ⟨hnonneg, hbound, hattained⟩ := foldl_max_spec (fun k => tl.free (.ofNat k)) 256
  refine ⟨hnonneg, fun ch => ?_, hattained.imp_right fun ⟨k, _, hk⟩ => ⟨_, hk⟩⟩
  have := hbound ch.toNat ch.toNat_lt
  rwa [UInt8.ofNat_toNat] at this

end Timeline
end PulseProcessor
