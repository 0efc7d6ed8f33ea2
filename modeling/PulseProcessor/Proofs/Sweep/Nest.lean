import PulseProcessor.Proofs.Assembly.Extension
import PulseProcessor.Proofs.Emulator.Execution
import PulseProcessor.Sweep.Generator

/-! # Loop nests

A `LoopNest` is a tree of sweeps with straight-line code before, inside and after them.  It has two
meanings.  `LoopNest.emit` writes it with a generator; `LoopNest.exec` executes it as the nested
counted loops it describes, with each register set to the value it has in the iteration.

Of the code that a generator writes, this module says what it consists of and where its labels are:
between the places where the nest begins and ends, and at neither of them (`LoopNest.heads_emit`).
-/

namespace PulseProcessor

/-- Code with loops in it. -/
inductive LoopNest where
  | done
  | code (i : Instruction) (comment : Option String) (rest : LoopNest)
  | loop (s : Sweep) (body rest : LoopNest)

/-- Sets swept registers to their values in iteration `i`. -/
def Machine.putValues (m : Machine) (rs : List SweptRegister) (i : Nat) : Machine :=
  rs.foldl (fun m r => m.put r.register (r.value i)) m

/-- The machine at the start of iteration `i`: swept registers have their values, and the counter
says how many iterations are to follow. -/
def Sweep.load (s : Sweep) (i : Nat) (m : Machine) : Machine :=
  (m.putValues s.registers i).put s.counter (.ofNat (s.count.toNat - 1 - i))

namespace LoopNest

/-- The code of a nest, written with a generator. -/
def emit : LoopNest → SweepGenerator → Except AssemblyError SweepGenerator
  | done, g => .ok g
  | code i comment rest, g => rest.emit { g with program := g.program.append i comment }
  | loop s body rest, g => do
    let g ← Id.run (g.sweep s fun inner => ExceptT.mk (body.emit inner)).run
    rest.emit g

/-- **Nested counted loops.**  After the last iteration the registers have been stepped once
more. -/
def exec : LoopNest → Machine → Option Machine
  | done, m => some m
  | code i _ rest, m => do rest.exec (← m.perform i)
  | loop s body rest, m => do
    let m ← (List.range s.count.toNat).foldlM (fun m i => body.exec (s.load i m)) m
    rest.exec (s.load s.count.toNat m)

/-- The iterations of all loops in the order of their starts. -/
def iterations : LoopNest → List (Sweep × Nat)
  | done => []
  | code _ _ rest => rest.iterations
  | loop s body rest =>
    (List.range s.count.toNat).flatMap (fun i => (s, i) :: body.iterations) ++ rest.iterations

/-- Steps are narrow, code is straight-line code, and no instruction writes a register that a loop
around it owns. -/
def Proper : LoopNest → List Register → Prop
  | done, _ => True
  | code i _ rest, owned =>
    i.Straight ∧ (∀ r ∈ i.destination?, r ∉ owned) ∧ rest.Proper owned
  | loop s body rest, owned =>
    (∀ r ∈ s.registers, Isa.Narrow r.step) ∧ body.Proper (s.owned ++ owned) ∧ rest.Proper owned

instance decidableProper : (t : LoopNest) → (owned : List Register) → Decidable (t.Proper owned)
  | done, _ => .isTrue trivial
  | code i _ rest, owned =>
    have := rest.decidableProper owned
    inferInstanceAs (Decidable
      (i.Straight ∧ (∀ r ∈ i.destination?, r ∉ owned) ∧ rest.Proper owned))
  | loop s body rest, owned =>
    have := body.decidableProper (s.owned ++ owned)
    have := rest.decidableProper owned
    inferInstanceAs (Decidable ((∀ r ∈ s.registers, Isa.Narrow r.step) ∧
      body.Proper (s.owned ++ owned) ∧ rest.Proper owned))

end LoopNest

/-! ### Opening and closing a loop -/

namespace SweepGenerator

variable {g g' inner : SweepGenerator} {owner : String} {r : Register} {rs : List Register}
  {s : Sweep}

theorem live_of_reserve (h : g.reserve r owner = .ok g') : g'.live = g.live ++ [(r, owner)] := by
  unfold reserve at h
  split at h
  · contradiction
  · split at h
    · contradiction
    · cases h
      rfl

theorem reserve_eq_ok (h : g.reserve r owner = .ok g') : r.number ≠ 0 ∧ r ∉ g.liveRegisters ∧
    g'.program = g.program ∧ g'.liveRegisters = g.liveRegisters ++ [r] := by
  unfold reserve at h
  by_cases hzero : r.number = 0
  · simp [hzero] at h
  · rw [if_neg hzero] at h
    split at h
    · contradiction
    · rename_i hfree
      cases h
      refine ⟨hzero, fun hmem => ?_, rfl, by simp [liveRegisters]⟩
      obtain ⟨entry, hentry, rfl⟩ := List.mem_map.1 hmem
      have := List.find?_eq_none.1 hfree entry hentry
      simp at this

theorem live_of_reserveAll (h : g.reserveAll owner rs = .ok g') :
    g'.live = g.live ++ rs.map (·, owner) := by
  induction rs generalizing g with
  | nil =>
    cases h
    exact (List.append_nil _).symm
  | cons r rs ih =>
    obtain ⟨g₁, hr, h⟩ := bind_eq_ok_iff.1 h
    rw [ih h, live_of_reserve hr, List.append_assoc]
    rfl

/-- Registers that could be made live were not so before, and differ from each other. -/
theorem reserveAll_eq_ok (h : g.reserveAll owner rs = .ok g') :
    (∀ r ∈ rs, r.number ≠ 0 ∧ r ∉ g.liveRegisters) ∧ rs.Nodup ∧ g'.program = g.program ∧
      g'.liveRegisters = g.liveRegisters ++ rs := by
  induction rs generalizing g with
  | nil =>
    cases h
    simp
  | cons r rs ih =>
    obtain ⟨g₁, hr, h⟩ := bind_eq_ok_iff.1 h
    obtain ⟨hzero, hfree, hprogram, hlive⟩ := reserve_eq_ok hr
    obtain ⟨hall, hnodup, hprogram', hlive'⟩ := ih h
    rw [hlive] at hall hlive'
    refine ⟨?_, ?_, hprogram'.trans hprogram, by simpa using hlive'⟩
    · rintro r' (_ | ⟨_, hr'⟩)
      · exact ⟨hzero, hfree⟩
      · exact ⟨(hall r' hr').1, fun hmem => (hall r' hr').2 (List.mem_append_left _ hmem)⟩
    · refine List.nodup_cons.2 ⟨fun hmem => (hall r hmem).2 ?_, hnodup⟩
      exact List.mem_append_right _ (List.mem_singleton_self r)

/-- The program in which the registers of a loop have been loaded. -/
def loaded (p : Program) (s : Sweep) : Program :=
  (s.registers.foldl (preload s.name) p).loadConstant s.counter.page s.counter.number
    (s.count.toNat - 1) (some s!"{s.name}: {s.count} iterations")

/-- What opening a loop asks for, and what it does. -/
theorem enter_eq_ok (h : g.enter s = .ok inner) : s.count ≠ 0 ∧
    (∀ r ∈ s.owned, r.number ≠ 0 ∧ r ∉ g.liveRegisters) ∧ s.owned.Nodup ∧
    inner.liveRegisters = g.liveRegisters ++ s.owned ∧
    (loaded g.program s).defineLabel s.name = .ok inner.program := by
  unfold enter at h
  by_cases hcount : s.count = 0
  · rw [if_pos hcount] at h
    contradiction
  · rw [if_neg hcount] at h
    obtain ⟨g₁, hlive, h⟩ := bind_eq_ok_iff.1 h
    obtain ⟨hall, hnodup, hprogram, hadded⟩ := reserveAll_eq_ok hlive
    obtain ⟨p, hlabel, h⟩ := bind_eq_ok_iff.1 h
    cases h
    exact ⟨hcount, hall, hnodup, hadded, hprogram ▸ hlabel⟩

theorem grows_preloads (p : Program) (name : String) (rs : List SweptRegister) :
    p.Grows (rs.foldl (preload name) p) :=
  .of_foldl (fun _ _ => .of_loadConstant ..) p rs

theorem grows_loaded (p : Program) (s : Sweep) : p.Grows (loaded p s) :=
  (grows_preloads p s.name s.registers).trans (.of_loadConstant ..)

theorem grows_enter (h : g.enter s = .ok inner) : g.program.Grows inner.program := by
  obtain ⟨-, -, -, -, hlabel⟩ := enter_eq_ok h
  exact (grows_loaded g.program s).defineLabel hlabel

theorem labels_loaded (p : Program) (s : Sweep) : (loaded p s).labels = p.labels :=
  (Program.labels_loadConstant ..).trans
    (Program.labels_foldl (fun _ _ => Program.labels_loadConstant ..) p s.registers)

theorem size_lt_size_loaded (p : Program) (s : Sweep) : p.size < (loaded p s).size :=
  Nat.lt_of_le_of_lt (grows_preloads p s.name s.registers).extends.size_le
    (Program.size_lt_size_loadConstant ..)

/-- Stepping a register begins with an addition. -/
theorem grows_add_advance (p : Program) (r : SweptRegister) :
    (p.append (.mathi r.register.page r.register.number r.register.number (.known .add)
      r.step)).Grows (advance p r) := by
  unfold advance
  dsimp only
  split
  · exact .refl _
  · split
    · exact (Program.Grows.of_append ..).append ..
    · exact .of_append ..

theorem grows_advance (p : Program) (r : SweptRegister) : p.Grows (advance p r) :=
  (Program.Grows.of_append ..).trans (grows_add_advance p r)

theorem grows_advances (p : Program) (rs : List SweptRegister) : p.Grows (rs.foldl advance p) :=
  .of_foldl grows_advance p rs

theorem labels_advance (p : Program) (r : SweptRegister) : (advance p r).labels = p.labels := by
  unfold advance
  dsimp only
  split
  · rfl
  · split <;> rfl

theorem grows_leave (g outer : SweepGenerator) (s : Sweep) :
    g.program.Grows (g.leave outer s).program :=
  (grows_advances g.program s.registers).append ..

theorem labels_leave (g outer : SweepGenerator) (s : Sweep) :
    (g.leave outer s).program.labels = g.program.labels :=
  Program.labels_foldl labels_advance g.program s.registers

theorem size_lt_size_leave (g outer : SweepGenerator) (s : Sweep) :
    g.program.size < (g.leave outer s).program.size :=
  Nat.lt_of_le_of_lt (grows_advances g.program s.registers).extends.size_le (by simp [leave])

theorem run_sweep (g : SweepGenerator) (s : Sweep)
    (body : SweepGenerator → ExceptT AssemblyError Id SweepGenerator) :
    Id.run (g.sweep s body).run =
      (g.enter s).bind fun inner => (Id.run (body inner).run).map (·.leave g s) := by
  rw [sweep]
  cases g.enter s with
  | error e => rfl
  | ok inner =>
    change Id.run (ExceptT.bindCont (m := Id) _ (body inner)) =
      Except.map (·.leave g s) (body inner)
    cases body inner <;> rfl

end SweepGenerator

namespace LoopNest

/-- A loop is written in three parts, and what follows it with the registers of before. -/
theorem emit_loop_eq_ok {s : Sweep} {body rest : LoopNest} {g g' : SweepGenerator}
    (h : (loop s body rest).emit g = .ok g') : ∃ inner inner', g.enter s = .ok inner ∧
      body.emit inner = .ok inner' ∧ rest.emit (inner'.leave g s) = .ok g' := by
  rw [emit, SweepGenerator.run_sweep] at h
  obtain ⟨g₁, hsweep, hrest⟩ := bind_eq_ok_iff.1 h
  obtain ⟨inner, hinner, hsweep⟩ := bind_eq_ok_iff.1 hsweep
  obtain ⟨inner', hbody, rfl⟩ := map_eq_ok_iff.1 hsweep
  exact ⟨inner, inner', hinner, hbody, hrest⟩

theorem grows_emit {t : LoopNest} {g g' : SweepGenerator} (h : t.emit g = .ok g') :
    g.program.Grows g'.program := by
  induction t generalizing g g' with
  | done =>
    cases h
    exact .refl _
  | code i comment rest ih => exact (Program.Grows.of_append ..).trans (ih h)
  | loop s body rest ihbody ihrest =>
    obtain ⟨inner, inner', henter, hbody, hrest⟩ := emit_loop_eq_ok h
    exact (SweepGenerator.grows_enter henter).trans <| (ihbody hbody).trans <|
      (SweepGenerator.grows_leave ..).trans (ihrest hrest)

theorem extends_emit {t : LoopNest} {g g' : SweepGenerator} (h : t.emit g = .ok g') :
    g.program.Extends g'.program :=
  (grows_emit h).extends

/-- The labels of a loop and what follows it: the loop's own, those inside of it, and the rest. -/
theorem heads_loop {s : Sweep} {body rest : LoopNest} {g g' inner inner' : SweepGenerator}
    (henter : g.enter s = .ok inner) (hbody : body.emit inner = .ok inner')
    (hrest : rest.emit (inner'.leave g s) = .ok g') :
    g.program.heads g'.program = inner.program.size ::
      (inner.program.heads inner'.program ++ (inner'.leave g s).program.heads g'.program) := by
  obtain ⟨-, -, -, -, hlabel⟩ := SweepGenerator.enter_eq_ok henter
  have hloaded := (SweepGenerator.grows_loaded g.program s).extends
  have hopen := hloaded.trans (Program.extends_defineLabel hlabel)
  have hclose := (SweepGenerator.grows_leave inner' g s).extends
  -- Each label is added where its part of the code begins; loading and closing add none.
  rw [Program.heads_trans hopen ((extends_emit hbody).trans (hclose.trans (extends_emit hrest))),
    Program.heads_trans hloaded (Program.extends_defineLabel hlabel),
    Program.heads_of_labels_eq (SweepGenerator.labels_loaded ..), Program.heads_defineLabel hlabel,
    Program.heads_trans (extends_emit hbody) (hclose.trans (extends_emit hrest)),
    Program.heads_trans hclose (extends_emit hrest),
    Program.heads_of_labels_eq (SweepGenerator.labels_leave ..), Program.size_defineLabel hlabel]
  rfl

/-- **The labels of a nest are inside of it.**  A loop begins by loading its counter and ends with a
jump, so its label is neither where it begins nor where it ends. -/
theorem heads_emit {t : LoopNest} {g g' : SweepGenerator} (h : t.emit g = .ok g') :
    ∀ k ∈ g.program.heads g'.program, g.program.size < k ∧ k < g'.program.size := by
  induction t generalizing g g' with
  | done =>
    cases h
    simp [Program.heads_of_labels_eq]
  | code i comment rest ih =>
    intro k hk
    rw [emit] at h
    have hrest : (g.program.append i comment).Extends g'.program := extends_emit h
    rw [Program.heads_trans (Program.extends_append ..) hrest,
      Program.heads_of_labels_eq (Program.labels_append ..)] at hk
    have := ih h k hk
    rw [Program.size_append] at this
    omega
  | loop s body rest ihbody ihrest =>
    obtain ⟨inner, inner', henter, hbody, hrest⟩ := emit_loop_eq_ok h
    obtain ⟨-, -, -, -, hlabel⟩ := SweepGenerator.enter_eq_ok henter
    have hlo := SweepGenerator.size_lt_size_loaded g.program s
    have hhi := SweepGenerator.size_lt_size_leave inner' g s
    have hmid := (extends_emit hbody).size_le
    have hend := (extends_emit hrest).size_le
    have hsize := Program.size_defineLabel hlabel
    intro k hk
    rw [heads_loop henter hbody hrest, List.mem_cons, List.mem_append] at hk
    rcases hk with rfl | hk | hk
    · omega
    · have := ihbody hbody k hk
      omega
    · have := ihrest hrest k hk
      omega

end LoopNest
end PulseProcessor
