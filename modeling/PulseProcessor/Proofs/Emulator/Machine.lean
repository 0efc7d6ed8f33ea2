import PulseProcessor.Emulator.Machine

/-! # Reading and writing registers

A register file is seen through `Machine.read`.  A write shows in the register it names, unless
that is register 0, and nowhere else.  For a register that exists and can be written
(`Register.Valid`) the two are `Machine.get` and `Machine.put`.
-/

namespace PulseProcessor
namespace Machine

variable {s : Machine} {page reg page' reg' : Nat} {v : UInt32}

theorem slot_eq_iff (hp : page < 8) (hr : reg < 32) (hp' : page' < 8) (hr' : reg' < 32) :
    slot page reg = slot page' reg' ↔ page = page' ∧ reg = reg' := by
  simp only [slot, Fin.mk.injEq]
  omega

theorem read_write (hp : page < 8) (hr : reg < 32) (hp' : page' < 8) (hr' : reg' < 32) :
    (s.write page reg v).read page' reg' =
      if reg ≠ 0 ∧ page = page' ∧ reg = reg' then v else s.read page' reg' := by
  unfold write
  by_cases h0 : reg = 0
  · simp [h0]
  · rw [if_neg h0, read, read]
    simp only [Fin.getElem_fin, Vector.getElem_set, ← Fin.ext_iff, slot_eq_iff hp hr hp' hr']
    simp [h0]

@[simp] theorem write_memory : (s.write page reg v).memory = s.memory := by
  unfold write; split <;> rfl

@[simp] theorem write_pc : (s.write page reg v).pc = s.pc := by
  unfold write; split <;> rfl

@[simp] theorem write_timeOffset : (s.write page reg v).timeOffset = s.timeOffset := by
  unfold write; split <;> rfl

@[simp] theorem write_events : (s.write page reg v).events = s.events := by
  unfold write; split <;> rfl

@[simp] theorem write_halted : (s.write page reg v).halted = s.halted := by
  unfold write; split <;> rfl

theorem write_goto (k : Nat) :
    ({ s with pc := k } : Machine).write page reg v = { s.write page reg v with pc := k } := by
  unfold write; split <;> rfl

end Machine

/-! ### Whole registers -/

namespace Register

/-- **The register exists and can be written.** -/
structure Valid (r : Register) : Prop where
  page_lt : r.page.toNat < 8
  number_lt : r.number.toNat < 32
  number_ne : r.number ≠ 0

theorem Valid.toNat_number_ne {r : Register} (h : r.Valid) : r.number.toNat ≠ 0 := fun h0 =>
  h.number_ne (UInt8.toNat_inj.1 h0)

theorem eq_iff_toNat {r r' : Register} :
    r = r' ↔ r.page.toNat = r'.page.toNat ∧ r.number.toNat = r'.number.toNat := by
  cases r; cases r'
  simp [UInt8.toNat_inj]

end Register

namespace Machine

variable {m : Machine} {r r' : Register} {v v' : UInt32}

def get (m : Machine) (r : Register) : UInt32 := m.read r.page.toNat r.number.toNat

def put (m : Machine) (r : Register) (v : UInt32) : Machine :=
  m.write r.page.toNat r.number.toNat v

/-- The same state at another place of the program. -/
def goto (m : Machine) (pc : Nat) : Machine := { m with pc }

theorem get_put (hr : r.Valid) (hr' : r'.Valid) :
    (m.put r v).get r' = if r = r' then v else m.get r' := by
  rw [get, put, read_write hr.page_lt hr.number_lt hr'.page_lt hr'.number_lt]
  simp only [ne_eq, hr.toNat_number_ne, not_false_eq_true, true_and, Register.eq_iff_toNat, get]

theorem get_put_self (hr : r.Valid) : (m.put r v).get r = v := by
  rw [get_put hr hr, if_pos rfl]

theorem get_put_of_ne (hr : r.Valid) (hr' : r'.Valid) (h : r ≠ r') :
    (m.put r v).get r' = m.get r' := by
  rw [get_put hr hr', if_neg h]

/-- Of two writes to one register the second one stays. -/
theorem put_put_self : (m.put r v).put r v' = m.put r v' := by
  unfold put write
  split
  · rfl
  · simp

theorem put_get_self : m.put r (m.get r) = m := by
  unfold put write get read
  split
  · rfl
  · simp

@[simp] theorem put_halted : (m.put r v).halted = m.halted := write_halted

@[simp] theorem put_events : (m.put r v).events = m.events := write_events

@[simp] theorem put_timeOffset : (m.put r v).timeOffset = m.timeOffset := write_timeOffset

@[simp] theorem goto_pc (k : Nat) : (m.goto k).pc = k := rfl

@[simp] theorem read_goto (k page reg : Nat) : (m.goto k).read page reg = m.read page reg := rfl

@[simp] theorem load?_goto (k addr : Nat) : (m.goto k).load? addr = m.load? addr := rfl

theorem put_goto (k : Nat) : (m.goto k).put r v = (m.put r v).goto k := write_goto k

end Machine
end PulseProcessor
