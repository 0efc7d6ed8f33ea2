import PulseProcessor.Proofs.Emulator.Constants
import PulseProcessor.Proofs.Sweep.Nest

/-! # Loading and stepping swept registers

A swept register is loaded with its value in iteration 0.  The code behind the body takes its value
in one iteration to that in the next (`SweptRegister.stepped_value`): it adds the step and cuts the
sum to the width, with a mask or with two shifts.
-/

namespace PulseProcessor

/-! ### Values -/

theorem ofInt_toInt64 (w : Word) : UInt32.ofInt w.toInt64.toInt = w.toUInt32 := by
  have hint : w.toInt64.toInt = w.toNat ∨ w.toInt64.toInt = w.toNat - 18446744073709551616 := by
    rw [← w.toInt64.toInt_toBitVec, UInt64.toBitVec_toInt64, BitVec.toInt_eq_toNat_cond]
    simp only [UInt64.toNat_toBitVec]
    split
    · exact .inl rfl
    · exact .inr rfl
  rw [eq_comm, ofInt_eq_iff, UInt64.toNat_toUInt32]
  omega

/-- Masks of up to 30 bits can be written as immediates. -/
theorem narrow_mask {width : Nat} (h : width ≤ 30) : Isa.Narrow ((1 <<< width : Nat) - 1) := by
  have hpos := Isa.one_shiftLeft_pos width
  have hle := Isa.one_shiftLeft_le h
  constructor <;> omega

namespace SweptRegister

variable (r : SweptRegister) (i : Nat)

theorem toNat_value :
    ((r.value i).toNat : Int) = (r.start + i * r.step) % (1 <<< min r.width 32 : Nat) := by
  rw [value, Isa.wrap, UInt64.toNat_toUInt32, UInt64.toNat_ofNat']
  generalize r.start + i * r.step = v
  have hpos := Isa.one_shiftLeft_pos (min r.width 64)
  have hnonneg := Int.emod_nonneg v (b := (1 <<< min r.width 64 : Nat)) (by omega)
  have hlt := Int.emod_lt_of_pos v (b := (1 <<< min r.width 64 : Nat)) (by omega)
  have hle := Isa.one_shiftLeft_le (Nat.min_le_right r.width 64)
  by_cases hwidth : r.width ≤ 32
  · have hle32 := Isa.one_shiftLeft_le hwidth
    rw [Nat.min_eq_left (by omega : r.width ≤ 64)] at *
    rw [Nat.min_eq_left hwidth]
    omega
  · -- The value is cut twice, to the width and to the register; the register is the narrower one.
    have hdvd : ((1 <<< 32 : Nat) : Int) ∣ (1 <<< min r.width 64 : Nat) :=
      Int.natCast_dvd_natCast.2 (Isa.one_shiftLeft_dvd (by omega))
    have hmod := Int.emod_emod_of_dvd v hdvd
    rw [Nat.min_eq_right (by omega : 32 ≤ r.width)]
    rw [show ((1 <<< 32 : Nat) : Int) = 4294967296 from rfl] at hmod ⊢
    generalize 1 <<< min r.width 64 = n at *
    omega

/-- Values go up by the step, modulo what the width can hold. -/
theorem toNat_value_succ : (r.value (i + 1)).toNat =
    ((r.value i).toNat + (UInt32.ofInt r.step).toNat) % (1 <<< min r.width 32) := by
  have hvalue := r.toNat_value i
  have hnext := r.toNat_value (i + 1)
  have hstep := toNat_ofInt r.step
  have hdvd : ((1 <<< min r.width 32 : Nat) : Int) ∣ (1 <<< 32 : Nat) :=
    Int.natCast_dvd_natCast.2 (Isa.one_shiftLeft_dvd (Nat.min_le_right ..))
  have hmul : ((i + 1 : Nat) : Int) * r.step = i * r.step + r.step := by
    rw [Int.natCast_add, Int.add_mul, Int.natCast_one, Int.one_mul]
  rw [hmul, ← Int.add_assoc] at hnext
  have hcut : r.step % (4294967296 : Int) % (1 <<< min r.width 32 : Nat) =
      r.step % (1 <<< min r.width 32 : Nat) := Int.emod_emod_of_dvd r.step hdvd
  rw [← Int.natCast_inj, Int.natCast_emod, Int.natCast_add, hnext, hvalue, hstep,
    Int.emod_add_emod, Int.add_emod, ← hcut, ← Int.add_emod]

/-- A register is loaded with its value in iteration 0. -/
theorem ofInt_wrap_start :
    UInt32.ofInt (Isa.wrap r.width r.start).toInt64.toInt = r.value 0 := by
  rw [ofInt_toInt64, value]
  simp

/-- What the code behind the body of a loop makes of a register's value. -/
def stepped (x : UInt32) : UInt32 :=
  let sum := x + .ofInt r.step
  if r.width ≥ registerWidth then sum
  else if r.width = 31 then sum <<< 1 >>> 1
  else sum &&& .ofInt ((1 <<< r.width : Nat) - 1)

/-- Cutting to the width is the remainder by what the width can hold. -/
theorem toNat_stepped (x : UInt32) : (r.stepped x).toNat =
    (x.toNat + (UInt32.ofInt r.step).toNat) % (1 <<< min r.width 32) := by
  generalize hsum : x + UInt32.ofInt r.step = sum
  have hsum' : sum.toNat = (x.toNat + (UInt32.ofInt r.step).toNat) % 1 <<< 32 := by
    rw [← hsum, UInt32.toNat_add, Nat.one_shiftLeft]
  rw [← Nat.mod_mod_of_dvd _ (Isa.one_shiftLeft_dvd (Nat.min_le_right r.width 32)), ← hsum',
    stepped, hsum, registerWidth]
  have hlt := sum.toNat_lt
  by_cases hfull : r.width ≥ 32
  · rw [if_pos hfull, Nat.min_eq_right hfull, Nat.one_shiftLeft, Nat.mod_eq_of_lt hlt]
  rw [if_neg hfull]
  by_cases hshift : r.width = 31
  · -- A mask of 31 bits is no immediate; the topmost bit is shifted out and back in as zero.
    rw [if_pos hshift, hshift, UInt32.toNat_shiftRight, UInt32.toNat_shiftLeft,
      show (1 : UInt32).toNat % 32 = 1 from rfl, Nat.shiftLeft_eq, Nat.shiftRight_eq_div_pow,
      show 1 <<< min 31 32 = 2147483648 from rfl]
    omega
  · have hle := Isa.one_shiftLeft_le (show r.width ≤ 30 by omega)
    have hpos := Isa.one_shiftLeft_pos r.width
    have hmask : (UInt32.ofInt ((1 <<< r.width : Nat) - 1)).toNat = 1 <<< r.width - 1 := by
      have := toNat_ofInt ((1 <<< r.width : Nat) - 1)
      omega
    rw [if_neg hshift, Nat.min_eq_left (by omega), UInt32.toNat_and, hmask, Nat.one_shiftLeft,
      Nat.and_two_pow_sub_one_eq_mod]

/-- **Stepping leads from each value to the next.** -/
theorem stepped_value : r.stepped (r.value i) = r.value (i + 1) := by
  rw [← UInt32.toNat_inj, toNat_stepped, toNat_value_succ]

end SweptRegister

/-! ### The registers of a loop -/

namespace Machine

variable {m : Machine} {rs : List SweptRegister} {i : Nat} {r : Register}

@[simp] theorem putValues_halted : (m.putValues rs i).halted = m.halted := by
  induction rs generalizing m with
  | nil => rfl
  | cons x rs ih => exact ih.trans put_halted

theorem get_putValues_of_not_mem (hvalid : ∀ x ∈ rs, x.register.Valid) (hr : r.Valid)
    (h : r ∉ rs.map (·.register)) : (m.putValues rs i).get r = m.get r := by
  induction rs generalizing m with
  | nil => rfl
  | cons x rs ih =>
    rw [List.map_cons, List.mem_cons, not_or] at h
    rw [List.forall_mem_cons] at hvalid
    exact (ih hvalid.2 h.2).trans (get_put_of_ne hvalid.1 hr (Ne.symm h.1))

/-- Of registers that differ from each other, each has its value. -/
theorem get_putValues (hvalid : ∀ x ∈ rs, x.register.Valid) (hnodup : (rs.map (·.register)).Nodup) :
    ∀ x ∈ rs, (m.putValues rs i).get x.register = x.value i := by
  induction rs generalizing m with
  | nil => simp
  | cons x rs ih =>
    rw [List.map_cons, List.nodup_cons] at hnodup
    rw [List.forall_mem_cons] at hvalid
    rintro y (_ | ⟨_, hy⟩)
    · exact (get_putValues_of_not_mem hvalid.2 hvalid.1 hnodup.1).trans (get_put_self hvalid.1)
    · exact ih hvalid.2 hnodup.2 y hy

end Machine

namespace Sweep

variable {s : Sweep} {i : Nat} {m : Machine} {r : Register}

@[simp] theorem load_halted : (s.load i m).halted = m.halted :=
  Machine.put_halted.trans Machine.putValues_halted

theorem get_load_of_not_mem (hvalid : ∀ r ∈ s.owned, r.Valid) (hr : r.Valid) (h : r ∉ s.owned) :
    (s.load i m).get r = m.get r := by
  rw [owned, List.mem_cons, not_or] at h
  rw [owned, List.forall_mem_cons] at hvalid
  rw [load, Machine.get_put_of_ne hvalid.1 hr (Ne.symm h.1),
    Machine.get_putValues_of_not_mem (by simpa using hvalid.2) hr h.2]

/-- At the start of an iteration each register has its value. -/
theorem get_load (hvalid : ∀ r ∈ s.owned, r.Valid) (hnodup : s.owned.Nodup) :
    ∀ r ∈ s.registers, (s.load i m).get r.register = r.value i := by
  intro r hr
  rw [owned, List.forall_mem_cons] at hvalid
  rw [owned, List.nodup_cons] at hnodup
  have hmem : r.register ∈ s.registers.map (·.register) := List.mem_map_of_mem hr
  have hne : s.counter ≠ r.register := fun heq => hnodup.1 (heq ▸ hmem)
  rw [load, Machine.get_put_of_ne hvalid.1 (hvalid.2 _ hmem) hne]
  exact Machine.get_putValues (by simpa using hvalid.2) hnodup.2 r hr

theorem get_load_counter (hvalid : s.counter.Valid) :
    (s.load i m).get s.counter = .ofNat (s.count.toNat - 1 - i) :=
  Machine.get_put_self hvalid

end Sweep

/-! ### Code -/

namespace SweepGenerator

open Machine (Passage)

variable {p q : Program} {ws : List Word} {m : Machine} {s : Sweep}

theorem at_advance {r : SweptRegister} (h : (advance p r).Extends q) :
    q.At p.size
      (.mathi r.register.page r.register.number r.register.number (.known .add) r.step) :=
  (Program.at_append ..).extends ((grows_add_advance p r).extends.trans h)

/-- A register that is stepped by the words of a program exists. -/
theorem valid_of_advance {r : SweptRegister} (hq : q.encode = .ok ws)
    (hne : r.register.number ≠ 0) (h : (advance p r).Extends q) : r.register.Valid := by
  obtain ⟨w, -, hw⟩ := (at_advance h).exists_word hq
  obtain ⟨hpage, hnumber, -⟩ := Machine.effect_mathi hw
  exact ⟨hpage, hnumber, hne⟩

theorem valid_of_advances {rs : List SweptRegister} (hq : q.encode = .ok ws)
    (hne : ∀ r ∈ rs, r.register.number ≠ 0) (h : (rs.foldl advance p).Extends q) :
    ∀ r ∈ rs, r.register.Valid := by
  induction rs generalizing p with
  | nil => simp
  | cons r rs ih =>
    rw [List.forall_mem_cons] at hne ⊢
    exact ⟨valid_of_advance hq hne.1 ((grows_advances _ rs).extends.trans h),
      ih hne.2 h⟩

/-- **The code that steps a register steps it.** -/
theorem passage_advance {r : SweptRegister} (hq : q.encode = .ok ws) (hr : r.register.Valid)
    (hstep : Isa.Narrow r.step) (h : (advance p r).Extends q) (hrun : m.halted = false) :
    ∃ ms, Passage ws.toArray m p.size (m.put r.register (r.stepped (m.get r.register)))
      (advance p r).size ms := by
  have hnext := (at_advance h).next?_mathi hq hrun
  rw [hstep.bmod] at hnext
  have hadd := Passage.single hnext
  unfold SweptRegister.stepped
  unfold advance at h ⊢
  dsimp only at h ⊢
  by_cases hfull : r.width ≥ registerWidth
  · rw [if_pos hfull] at h ⊢
    rw [if_pos hfull, Program.size_append]
    exact ⟨_, hadd⟩
  rw [if_neg hfull] at h ⊢
  rw [if_neg hfull]
  by_cases hshift : r.width = 31
  · rw [if_pos hshift] at h ⊢
    rw [if_pos hshift]
    have hshl := (Program.at_append ..).extends ((Program.extends_append ..).trans h)
    have hshr := (Program.at_append ..).extends h
    simp only [Program.size_append] at hshl hshr ⊢
    have hleft := hshl.next?_bitwi_put (y := m.get r.register + .ofInt r.step) hq hr hrun rfl
    have hright := hshr.next?_bitwi_put (y := (m.get r.register + .ofInt r.step) <<< 1) hq hr hrun
      rfl
    exact ⟨_, (hadd.trans (.single hleft)).trans (.single hright)⟩
  · rw [if_neg hshift] at h ⊢
    rw [if_neg hshift]
    have hand := (Program.at_append ..).extends h
    simp only [Program.size_append] at hand ⊢
    have hwidth : r.width ≤ 30 := by
      simp only [registerWidth] at hfull
      omega
    have hmask := hand.next?_bitwi_put (y := m.get r.register + .ofInt r.step) hq hr hrun rfl
    rw [(narrow_mask hwidth).bmod] at hmask
    exact ⟨_, hadd.trans (.single hmask)⟩

/-- The code that steps all registers of a loop. -/
theorem passage_advances {rs : List SweptRegister} {i : Nat} (hq : q.encode = .ok ws)
    (hvalid : ∀ r ∈ rs, r.register.Valid) (hnodup : (rs.map (·.register)).Nodup)
    (hsteps : ∀ r ∈ rs, Isa.Narrow r.step) (h : (rs.foldl advance p).Extends q)
    (hrun : m.halted = false) (hget : ∀ r ∈ rs, m.get r.register = r.value i) :
    ∃ ms, Passage ws.toArray m p.size (m.putValues rs (i + 1)) (rs.foldl advance p).size ms := by
  induction rs generalizing p m with
  | nil => exact ⟨_, .refl m p.size⟩
  | cons r rs ih =>
    rw [List.forall_mem_cons] at hvalid hsteps hget
    rw [List.map_cons, List.nodup_cons] at hnodup
    have hrest : (advance p r).Extends q := (grows_advances _ rs).extends.trans h
    obtain ⟨ms, hms⟩ := passage_advance hq hvalid.1 hsteps.1 hrest hrun
    rw [hget.1, r.stepped_value] at hms
    obtain ⟨ms', hms'⟩ := ih (m := m.put r.register (r.value (i + 1))) hvalid.2 hnodup.2 hsteps.2 h
      (by simpa using hrun) fun x hx => by
        have hne : r.register ≠ x.register := fun heq =>
          hnodup.1 (heq ▸ List.mem_map_of_mem hx)
        rw [Machine.get_put_of_ne hvalid.1 (hvalid.2 x hx) hne]
        exact hget.2 x hx
    exact ⟨_, hms.trans hms'⟩

/-- The code that loads all registers of a loop. -/
theorem passage_preloads {rs : List SweptRegister} (name : String) (hq : q.encode = .ok ws)
    (hvalid : ∀ r ∈ rs, r.register.Valid) (h : (rs.foldl (preload name) p).Extends q)
    (hrun : m.halted = false) : ∃ ms, Passage ws.toArray m p.size (m.putValues rs 0)
      (rs.foldl (preload name) p).size ms := by
  induction rs generalizing p m with
  | nil => exact ⟨_, .refl m p.size⟩
  | cons r rs ih =>
    rw [List.forall_mem_cons] at hvalid
    have hrest : (preload name p r).Extends q :=
      (grows_preloads _ _ rs).extends.trans h
    obtain ⟨ms, hms⟩ := Program.passage_loadConstant hq hvalid.1 hrest hrun
    rw [r.ofInt_wrap_start] at hms
    obtain ⟨ms', hms'⟩ := ih (m := m.put r.register (r.value 0)) hvalid.2 h (by simpa using hrun)
    exact ⟨_, hms.trans hms'⟩

/-- **The code in front of a loop sets up its first iteration.** -/
theorem passage_loaded (hq : q.encode = .ok ws) (hvalid : ∀ r ∈ s.owned, r.Valid)
    (hcount : s.count ≠ 0) (h : (loaded p s).Extends q) (hrun : m.halted = false) :
    ∃ ms, Passage ws.toArray m p.size (s.load 0 m) (loaded p s).size ms := by
  rw [Sweep.owned, List.forall_mem_cons] at hvalid
  obtain ⟨ms, hms⟩ := passage_preloads s.name hq (by simpa using hvalid.2)
    ((Program.Grows.of_loadConstant ..).extends.trans h) hrun
  obtain ⟨ms', hms'⟩ := Program.passage_loadConstant hq hvalid.1 h
    (m := m.putValues s.registers 0) (by simpa using hrun)
  have hvalue : UInt32.ofInt (s.count.toNat - 1) = .ofNat (s.count.toNat - 1 - 0) := by
    have hpos : s.count.toNat ≠ 0 := fun h => hcount (UInt32.toNat_inj.1 h)
    rw [eq_comm, ofInt_eq_iff, UInt32.toNat_ofNat']
    omega
  rw [hvalue] at hms'
  exact ⟨_, hms.trans hms'⟩

end SweepGenerator
end PulseProcessor
