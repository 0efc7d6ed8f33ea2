import PulseProcessor.Board.Simulated

/-! # Samples in a ring

The buffer of a readout is a ring: sample `i` goes into slot `i` modulo its size, whatever was there
before.  So as long as fewer samples have come after it than there are slots, a sample is where it
was stored (`Buffers.Held`).  Storing one sample after the other keeps this up for all readouts,
also when more samples come at once than there are slots.
-/

namespace PulseProcessor

/-! ### Words of samples -/

theorem Sample.ofWord_toWord (s : Sample) : Sample.ofWord s.toWord = s := by
  obtain ⟨i, q⟩ := s
  have hi : i.toUInt32.toNat < 4294967296 := i.toUInt32.toNat_lt
  have hq : q.toUInt32.toNat < 4294967296 := q.toUInt32.toNat_lt
  have hword : (toWord ⟨i, q⟩).toNat = q.toUInt32.toNat * 4294967296 + i.toUInt32.toNat := by
    simp only [toWord]
    rw [UInt64.toNat_or, UInt64.toNat_shiftLeft, UInt32.toNat_toUInt64,
      UInt32.toNat_toUInt64, show (32 : UInt64).toNat % 64 = 32 from rfl,
      Nat.mod_eq_of_lt (by rw [Nat.shiftLeft_eq]; omega), ← Nat.shiftLeft_add_eq_or_of_lt hi,
      Nat.shiftLeft_eq]
  have hlow : (toWord ⟨i, q⟩).toUInt32 = i.toUInt32 := by
    rw [← UInt32.toNat_inj, UInt64.toNat_toUInt32, hword]
    omega
  have hhigh : (toWord ⟨i, q⟩ >>> 32).toUInt32 = q.toUInt32 := by
    rw [← UInt32.toNat_inj, UInt64.toNat_toUInt32, UInt64.toNat_shiftRight, hword,
      show (32 : UInt64).toNat % 64 = 32 from rfl, Nat.shiftRight_eq_div_pow]
    omega
  rw [ofWord, hlow, hhigh, Int32.toInt32_toUInt32, Int32.toInt32_toUInt32]

namespace Buffers

/-! ### Slots -/

variable {channels capacity : Nat} {buffers : Buffers channels capacity}
  {lo hi first n channel slot index : Nat}

/-- The word in a slot of a readout's buffer; zero if there is no such slot. -/
def wordAt (buffers : Buffers channels capacity) (channel slot : Nat) : Word :=
  (buffers[channel]?.bind (·[slot]?)).getD 0

theorem wordAt_eq (hchannel : channel < channels) (hslot : slot < capacity) :
    buffers.wordAt channel slot = buffers[channel][slot] := by
  simp [wordAt, hchannel, hslot]

/-- A sample goes into one slot of each buffer. -/
theorem wordAt_store (hchannel : channel < channels) (hslot : slot < capacity) :
    (buffers.store index).wordAt channel slot =
      if index % capacity = slot then (Sample.simulated channel index).toWord
      else buffers.wordAt channel slot := by
  rw [wordAt_eq hchannel hslot, wordAt_eq hchannel hslot]
  simp only [store, Vector.getElem_mapIdx]
  exact Vector.getElem_setIfInBounds hslot

/-- **Of the samples from `lo` up to `hi`, those that are not overwritten are in their slots**, in
the buffer of every readout. -/
def Held (buffers : Buffers channels capacity) (lo hi : Nat) : Prop :=
  ∀ channel < channels, ∀ i, lo ≤ i → i < hi → hi ≤ i + capacity →
    buffers.wordAt channel (i % capacity) = (Sample.simulated channel i).toWord

/-- Nothing has been stored yet. -/
theorem held_self (buffers : Buffers channels capacity) (n : Nat) : buffers.Held n n :=
  fun _ _ _ hle hlt => absurd hle (Nat.not_le.2 hlt)

/-- Two numbers less than a round apart have different slots. -/
theorem mod_ne_mod {i j size : Nat} (hlt : i < j) (hround : j < i + size) :
    i % size ≠ j % size := by
  intro heq
  have hzero := Nat.sub_mod_eq_zero_of_mod_eq heq.symm
  rw [Nat.mod_eq_of_lt (by omega)] at hzero
  omega

theorem Held.store (h : buffers.Held lo hi) : (buffers.store hi).Held lo (hi + 1) := by
  intro channel hchannel i hlo hlt hround
  rw [wordAt_store hchannel (Nat.mod_lt _ (by omega))]
  by_cases hlast : i = hi
  · rw [hlast, if_pos rfl]
  · rw [if_neg (mod_ne_mod (by omega) (by omega)).symm]
    exact h channel hchannel i hlo (by omega) (by omega)

/-- **Storing keeps samples in their slots.** -/
theorem Held.storeFrom (h : buffers.Held lo first) :
    (buffers.storeFrom first n).Held lo (first + n) := by
  induction n generalizing buffers first with
  | zero => exact h
  | succ n ih =>
    rw [Buffers.storeFrom, show first + (n + 1) = first + 1 + n by omega]
    exact ih h.store

end Buffers
end PulseProcessor
