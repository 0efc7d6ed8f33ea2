import PulseProcessor.Proofs.Board.Ring

/-! # Boards that record

From the start of a readout on, a board has stored exactly the samples that its counter stands for
(`Board.Counting`), and the latest of them are in their slots (`Board.Recording`).  A reading of the
counter keeps this up, as long as the samples up to the next count have numbers of 64 bits and there
are slots for them (`Board.Ticks`).  Otherwise the board breaks down.
-/

namespace PulseProcessor
namespace Board

variable {b : Board}

/-! ### Boards that have broken down -/

/-- **A board that has broken down does nothing any more.** -/
theorem handle_poisoned (hpoisoned : b.poisoned = true) (r : Request) : (b.handle r).2 = b := by
  cases r with
  | capacity => rfl
  | read addr => rw [Board.handle, Board.read, if_pos hpoisoned]
  | write addr value => rw [Board.handle, Board.write, if_pos hpoisoned]
  | start => rw [Board.handle, Board.start, if_pos hpoisoned]
  | stop => rw [Board.handle, Board.stop, if_pos hpoisoned]
  | transfer channel address length timeout =>
    rw [Board.handle, Board.transfer, if_pos hpoisoned]
  | load words =>
    rw [Board.handle, Board.load, if_pos hpoisoned]
    split <;> rfl

/-! ### Readings of the counter -/

/-- The count that the next reading gives. -/
def nextCount (b : Board) : Nat :=
  min (min (b.count + b.schedule.next.1) (UInt32.size - 1)) b.limit

/-- The board after a reading of its counter. -/
def ticked (b : Board) : Board :=
  { b with
    schedule := b.schedule.next.2
    count := b.nextCount
    buffers := b.buffers.storeFrom b.written (b.nextCount * b.samplesPerCount - b.written)
    written := max b.written (b.nextCount * b.samplesPerCount)
    memory := b.memory.setIfInBounds b.counterAddr.toNat (UInt32.ofNat b.nextCount) }

/-- What a reading stores goes on from the samples of before. -/
theorem held_ticked {base : Nat} (h : b.buffers.Held base b.written) :
    b.ticked.buffers.Held base b.ticked.written := by
  have hheld : b.ticked.buffers.Held base
      (b.written + (b.nextCount * b.samplesPerCount - b.written)) := h.storeFrom
  have hwritten : b.written + (b.nextCount * b.samplesPerCount - b.written) = b.ticked.written := by
    simp only [Board.ticked]
    omega
  rwa [hwritten] at hheld

/-- **A reading of the counter leaves the board intact.** -/
structure Ticks (b : Board) : Prop where
  target_lt : b.nextCount * b.samplesPerCount < UInt64.size
  stored : b.capacity = 0 → b.nextCount * b.samplesPerCount ≤ b.written

theorem tick_eq (h : b.Ticks) : b.tick = (.ok (), b.ticked) := by
  have hroom : ¬ (b.capacity = 0 ∧ b.written < b.nextCount * b.samplesPerCount) :=
    fun hless => absurd (h.stored hless.1) (Nat.not_le.2 hless.2)
  exact (if_neg (Nat.not_le.2 h.target_lt)).trans (if_neg hroom)

/-- A board that breaks down has moved its schedule, and nothing else. -/
theorem tick_of_not_ticks (h : ¬ b.Ticks) :
    b.tick = breakDown { b with schedule := b.schedule.next.2 } := by
  by_cases htarget : b.nextCount * b.samplesPerCount < UInt64.size
  · have hroom : b.capacity = 0 ∧ b.written < b.nextCount * b.samplesPerCount :=
      Decidable.byContradiction fun hroom =>
        h ⟨htarget, fun hzero => Nat.le_of_not_lt fun hless => hroom ⟨hzero, hless⟩⟩
    exact (if_neg (Nat.not_le.2 htarget)).trans (if_pos hroom)
  · exact if_pos (Nat.le_of_not_lt htarget)

/-- A reading of the counter moves it first. -/
theorem read_counterAddr (hintact : b.poisoned = false) (hrunning : b.running = true)
    (hinside : b.counterAddr.toNat < 1024) : b.read b.counterAddr =
      (b.tick.1.map fun _ => b.tick.2.memory.getD b.counterAddr.toNat 0, b.tick.2) := by
  have hdepth : ¬ b.counterAddr.toNat ≥ dataMemoryDepth := Nat.not_le.2 hinside
  rw [Board.read, if_neg (by simp [hintact]), if_neg hdepth, if_pos ⟨hrunning, rfl⟩]

/-- The counter word shows the count. -/
theorem read_of_ticks (hintact : b.poisoned = false) (hrunning : b.running = true)
    (hinside : b.counterAddr.toNat < 1024) (h : b.Ticks) :
    b.read b.counterAddr = (.ok (UInt32.ofNat b.ticked.count), b.ticked) := by
  have hvalue : b.ticked.memory.getD b.counterAddr.toNat 0 = UInt32.ofNat b.nextCount := by
    simp [Board.ticked, Vector.getD, hinside]
  rw [read_counterAddr hintact hrunning hinside, tick_eq h]
  exact congrArg (fun v => (Except.ok v, b.ticked)) hvalue

/-- **A reading that breaks the board down gives nothing.** -/
theorem read_of_not_ticks (hintact : b.poisoned = false) (hrunning : b.running = true)
    (hinside : b.counterAddr.toNat < 1024) (h : ¬ b.Ticks) :
    b.read b.counterAddr = breakDown { b with schedule := b.schedule.next.2 } := by
  rw [read_counterAddr hintact hrunning hinside, tick_of_not_ticks h]
  rfl

/-! ### Counting -/

/-- **A board whose counter stands for what it has stored.**  Nothing is said of what is in its
slots, and it may leave transfers unanswered. -/
structure Counting (b : Board) : Prop where
  intact : b.poisoned = false
  running : b.running = true
  counterAddr_lt : b.counterAddr.toNat < 1024
  count_le : b.count ≤ b.limit
  count_lt : b.count < UInt32.size
  written : b.written = b.count * b.samplesPerCount

/-- The board when its counter has been cleared and it has been started. -/
def begun (b : Board) : Board :=
  { b with
    memory := b.memory.setIfInBounds b.counterAddr.toNat 0
    count := 0
    written := 0
    running := true
    starts := b.starts + 1 }

theorem counting_begun (hintact : b.poisoned = false) (hinside : b.counterAddr.toNat < 1024) :
    b.begun.Counting where
  intact := hintact
  running := rfl
  counterAddr_lt := hinside
  count_le := Nat.zero_le _
  count_lt := show 0 < UInt32.size by decide
  written := (Nat.zero_mul _).symm

namespace Counting

theorem count_le_nextCount (h : b.Counting) : b.count ≤ b.nextCount := by
  have := h.count_le
  have := h.count_lt
  rw [nextCount]
  omega

/-- **A reading keeps a board counting.** -/
theorem ticked (h : b.Counting) : b.ticked.Counting where
  intact := h.intact
  running := h.running
  counterAddr_lt := h.counterAddr_lt
  count_le := Nat.min_le_right ..
  count_lt := by
    have : UInt32.size = 4294967296 := rfl
    simp only [Board.ticked, nextCount]
    omega
  written := by
    have := Nat.mul_le_mul_right b.samplesPerCount h.count_le_nextCount
    simp only [Board.ticked, h.written]
    omega

/-- **A reading of the counter gives the count that the stored samples stand for**, or it breaks the
board down. -/
theorem read_cases (h : b.Counting) :
    b.Ticks ∧ b.read b.counterAddr = (.ok (UInt32.ofNat b.ticked.count), b.ticked) ∨
      ¬ b.Ticks ∧ (b.read b.counterAddr).1 = .error .crashed := by
  by_cases hticks : b.Ticks
  · exact .inl ⟨hticks, read_of_ticks h.intact h.running h.counterAddr_lt hticks⟩
  · refine .inr ⟨hticks, ?_⟩
    rw [read_of_not_ticks h.intact h.running h.counterAddr_lt hticks]
    rfl

/-- The log of transfers does not matter. -/
theorem withTransfers (h : b.Counting) (transfers : Array Transfer) :
    ({ b with transfers } : Board).Counting :=
  ⟨h.intact, h.running, h.counterAddr_lt, h.count_le, h.count_lt, h.written⟩

end Counting

/-! ### Transfers -/

section
variable {channel address length timeout : Nat}

/-- **A transfer changes nothing but the log**, unless the end of its window breaks the board
down. -/
theorem transfer_snd (b : Board) (channel address length timeout : Nat) :
    ∃ transfers poisoned, (b.transfer channel address length timeout).2 =
        { b with transfers, poisoned } ∧
      ((b.transfer channel address length timeout).1 ≠ .error .crashed →
        poisoned = b.poisoned) := by
  unfold Board.transfer
  split
  · exact ⟨_, _, rfl, fun _ => rfl⟩
  split
  · exact ⟨_, _, rfl, fun _ => rfl⟩
  split
  · split
    · split
      · exact ⟨_, _, rfl, fun hcrash => absurd rfl hcrash⟩
      · exact ⟨_, _, rfl, fun _ => rfl⟩
    · exact ⟨_, _, rfl, fun _ => rfl⟩
  · exact ⟨_, _, rfl, fun _ => rfl⟩

/-- The words of a window are those of its slots. -/
theorem extract_eq (hchannel : channel < b.channels) (hlength : address + length ≤ b.capacity) :
    (b.buffers[channel].toArray.extract address (address + length)).toList =
      (List.range' address length).map (b.buffers.wordAt channel) := by
  refine List.ext_getElem (by simp; omega) fun k hleft hright => ?_
  have hk : k < length := by simpa using hright
  rw [List.getElem_map, List.getElem_range', Nat.one_mul,
    Buffers.wordAt_eq hchannel (by omega : address + k < b.capacity)]
  simp

end

/-! ### Recording -/

/-- **A board in a readout.**  Its counter never stands for more samples than there are numbers. -/
structure Recording (b : Board) : Prop extends Counting b where
  stalled : b.stalled = false
  fits : b.limit * b.samplesPerCount < UInt64.size
  held : b.buffers.Held 0 b.written

/-- **A board starts to record, whatever is in its slots.** -/
theorem recording_begun (hintact : b.poisoned = false) (hstalled : b.stalled = false)
    (hinside : b.counterAddr.toNat < 1024) (hfits : b.limit * b.samplesPerCount < UInt64.size) :
    b.begun.Recording where
  toCounting := counting_begun hintact hinside
  stalled := hstalled
  fits := hfits
  held := Buffers.held_self _ _

namespace Recording

/-- **A reading keeps a board recording.** -/
theorem ticked (h : b.Recording) : b.ticked.Recording where
  toCounting := h.toCounting.ticked
  stalled := h.stalled
  fits := h.fits
  held := held_ticked h.held

/-- **Only a board without slots breaks down in a readout.** -/
theorem ticks (h : b.Recording) (hcapacity : 0 < b.capacity) : b.Ticks where
  target_lt := by
    have hle : b.nextCount * b.samplesPerCount ≤ b.limit * b.samplesPerCount :=
      Nat.mul_le_mul_right _ (Nat.min_le_right ..)
    exact Nat.lt_of_le_of_lt hle h.fits
  stored hzero := absurd hzero (Nat.pos_iff_ne_zero.1 hcapacity)

theorem read (h : b.Recording) (hcapacity : 0 < b.capacity) :
    b.read b.counterAddr = (.ok (UInt32.ofNat b.ticked.count), b.ticked) :=
  read_of_ticks h.intact h.running h.counterAddr_lt (h.ticks hcapacity)

/-- The log of transfers does not matter. -/
theorem withTransfers (h : b.Recording) (transfers : Array Transfer) :
    ({ b with transfers } : Board).Recording :=
  ⟨h.toCounting.withTransfers transfers, h.stalled, h.fits, h.held⟩

/-- **A transfer within the buffer of a readout that exists gives the words of its slots.** -/
theorem transfer (h : b.Recording) {channel address length timeout : Nat}
    (hchannel : channel < b.channels) (hlength : address + length ≤ b.capacity) :
    b.transfer channel address length timeout =
      (.ok ((List.range' address length).map (b.buffers.wordAt channel)),
        { b with transfers := b.transfers.push ⟨channel, address, length⟩ }) := by
  rw [Board.transfer, if_neg (by simp [h.intact]), if_neg (by simp [h.stalled]), dif_pos hchannel,
    if_neg (Nat.not_lt.2 hlength), extract_eq hchannel hlength]

end Recording
end Board
end PulseProcessor
