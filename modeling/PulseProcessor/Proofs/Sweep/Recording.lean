import PulseProcessor.Proofs.Emulator.Code
import PulseProcessor.Proofs.Sweep.Execution
import PulseProcessor.Proofs.Sweep.Reduction

/-! # What a sweep records

A loop whose body does nothing but put out its swept registers (`LoopNest.recording`) records, lap
by lap, the values that the registers take.  They are the values of the reduced sweep, whose steps
the words stand for (`LoopNest.exists_run_recording`).

The reduced values are those that the sweep describes, except for steps of `2 ^ 30` and more in
registers that are not cut to their lower bits (`SweptRegister.value_reduced_iff`).
-/

namespace PulseProcessor

open Machine (Executes)

/-! ### Values of reduced registers -/

namespace SweptRegister

variable {r : SweptRegister}

/-- A register that is cut to 31 bits or fewer does not see the reduction. -/
theorem value_reduced_of_width_le (h : r.width ≤ 31) (i : Nat) : r.reduced.value i = r.value i := by
  have hdvd : ((1 <<< min r.width 32 : Nat) : Int) ∣ (1 <<< 31 : Nat) :=
    Int.natCast_dvd_natCast.2 (Isa.one_shiftLeft_dvd (by omega))
  have hsame : (r.start + i * r.step.bmod (1 <<< 31)) % (1 <<< 31 : Nat) =
      (r.start + i * r.step) % (1 <<< 31 : Nat) := by
    rw [Int.add_emod, Int.mul_emod, Int.bmod_emod, ← Int.mul_emod, ← Int.add_emod]
  rw [← UInt32.toNat_inj, ← Int.natCast_inj, toNat_value, toNat_value, reduced,
    ← Int.emod_emod_of_dvd _ hdvd, hsame, Int.emod_emod_of_dvd _ hdvd]

/-- In a register of full width the first step is off by `2 ^ 31` if it is not narrow. -/
theorem value_reduced_one_ne (hwidth : ¬ r.width ≤ 31)
    (hfits : Isa.FieldKind.immediate.Fits r.step) (hstep : ¬ Isa.Narrow r.step) :
    r.reduced.value 1 ≠ r.value 1 := by
  intro heq
  have hleft := r.reduced.toNat_value 1
  have hright := r.toNat_value 1
  obtain ⟨hle, hlt⟩ := hfits
  have hbmod : r.step.bmod (1 <<< 31) = r.step - 2147483648 := by
    simp only [Isa.Narrow, Isa.FieldKind.least, Isa.FieldKind.width, Nat.reduceShiftLeft] at *
    rw [Int.bmod_def]
    omega
  rw [heq, hright, reduced, hbmod, Nat.min_eq_right (by omega)] at hleft
  simp only [Nat.reduceShiftLeft] at hleft
  omega

/-- **Which registers take their values in spite of the reduction**, the step being one that an
immediate can carry. -/
theorem value_reduced_iff (hfits : Isa.FieldKind.immediate.Fits r.step) (n : Nat) :
    (∀ i < n, r.reduced.value i = r.value i) ↔ n ≤ 1 ∨ r.width ≤ 31 ∨ Isa.Narrow r.step := by
  constructor
  · intro hall
    by_contra hnot
    simp only [not_or] at hnot
    exact value_reduced_one_ne hnot.2.1 hfits hnot.2.2 (hall 1 (by omega))
  · rintro (hn | hwidth | hstep) i hi
    · -- The start is not touched by the reduction.
      obtain rfl : i = 0 := by omega
      simp [value, reduced]
    · exact value_reduced_of_width_le hwidth i
    · rw [reduced_eq_self hstep]

end SweptRegister

namespace Sweep

variable {s : Sweep} {j : Nat} {r : SweptRegister}

theorem values_eq (h : s.registers[j]? = some r) :
    s.values j = (List.range s.count.toNat).map r.value := by
  rw [values, h]

theorem values_reduced (h : s.registers[j]? = some r) :
    s.reduced.values j = (List.range s.count.toNat).map r.reduced.value :=
  values_eq (by simp [reduced, h])

theorem values_reduced_iff (h : s.registers[j]? = some r)
    (hfits : Isa.FieldKind.immediate.Fits r.step) : s.reduced.values j = s.values j ↔
      s.count.toNat ≤ 1 ∨ r.width ≤ 31 ∨ Isa.Narrow r.step := by
  rw [values_reduced h, values_eq h, ← SweptRegister.value_reduced_iff hfits]
  simp [List.map_inj_left]

end Sweep

/-! ### What loading leaves alone -/

namespace Machine

variable {m : Machine} {r : Register} {v : UInt32} {rs : List SweptRegister} {i : Nat}

@[simp] theorem putValues_events : (m.putValues rs i).events = m.events := by
  induction rs generalizing m with
  | nil => rfl
  | cons x rs ih => exact ih.trans put_events

@[simp] theorem putValues_timeOffset : (m.putValues rs i).timeOffset = m.timeOffset := by
  induction rs generalizing m with
  | nil => rfl
  | cons x rs ih => exact ih.trans put_timeOffset

end Machine

@[simp] theorem Sweep.load_events {s : Sweep} {i : Nat} {m : Machine} :
    (s.load i m).events = m.events := by
  simp [load]

@[simp] theorem Sweep.load_timeOffset {s : Sweep} {i : Nat} {m : Machine} :
    (s.load i m).timeOffset = m.timeOffset := by
  simp [load]

/-- A step that is accepted fits an immediate. -/
theorem SweepGenerator.fits_of_advances {p q : Program} {ws : List Word} {rs : List SweptRegister}
    (hq : q.encode = .ok ws) (h : (rs.foldl advance p).Extends q) :
    ∀ r ∈ rs, Isa.FieldKind.immediate.Fits r.step := by
  induction rs generalizing p with
  | nil => simp
  | cons r rs ih =>
    rw [List.forall_mem_cons]
    obtain ⟨w, -, hw⟩ := (at_advance ((grows_advances _ rs).extends.trans h)).exists_word hq
    have hpat := Program.pattern?_operand_int hw (k := 4) rfl rfl
    exact ⟨(Isa.FieldKind.pattern?_eq_some_iff.1 hpat).1, ih h⟩

/-! ### Bodies that record -/

/-- A swept register that is put out on a channel, at a time of its own. -/
structure Mark where
  channel : UInt8
  time : Int
  swept : SweptRegister

namespace Mark

def code (k : Mark) : Instruction :=
  .seti k.channel k.swept.register.page k.swept.register.number k.time

/-- What is recorded of a mark in a machine whose time has not moved on. -/
def event (k : Mark) (v : UInt32) : Event := .seti k.channel (k.time.bmod (1 <<< 31)) v

def reduced (k : Mark) : Mark := { k with swept := k.swept.reduced }

theorem straight_code (k : Mark) : k.code.Straight := ⟨rfl, nofun⟩

theorem perform_code {k : Mark} {q : Program} {ws : List Word} {pc : Nat} {m : Machine}
    (hq : q.encode = .ok ws) (h : q.At pc k.code) (htime : m.timeOffset = 0) :
    m.perform k.code = some (m.emit (k.event (m.get k.swept.register))) := by
  obtain ⟨w, -, hw⟩ := h.exists_word hq
  obtain ⟨-, -, he⟩ := Machine.effect_seti hw
  rw [k.straight_code.perform_eq_some hw (he m), htime, Int.add_zero]
  rfl

end Mark

namespace LoopNest

/-- The body that puts out marked registers one after the other. -/
def recording : List Mark → LoopNest
  | [] => done
  | k :: ks => code k.code none (recording ks)

variable {marks : List Mark} {g g' : SweepGenerator} {q : Program} {ws : List Word} {m : Machine}

theorem reduced_recording (marks : List Mark) : (recording marks).reduced = recording marks := by
  induction marks with
  | nil => rfl
  | cons k ks ih => rw [recording, reduced, ih]

/-- The code of a body does not say how its registers are stepped. -/
theorem recording_reduced (marks : List Mark) :
    recording (marks.map (·.reduced)) = recording marks := by
  induction marks with
  | nil => rfl
  | cons k ks ih => rw [List.map_cons, recording, ih]; rfl

theorem proper_recording (marks : List Mark) (owned : List Register) :
    (recording marks).Proper owned := by
  induction marks with
  | nil => trivial
  | cons k ks ih => exact ⟨k.straight_code, nofun, ih⟩

/-- What machines record of marks. -/
def record (marks : List Mark) (m : Machine) : Machine :=
  { m with events := m.events ++ (marks.map fun k => k.event (m.get k.swept.register)).toArray }

/-- **The body records its marks, and does nothing else.** -/
theorem exec_recording (hq : q.encode = .ok ws) (hemit : (recording marks).emit g = .ok g')
    (hext : g'.program.Extends q) (htime : m.timeOffset = 0) :
    (recording marks).exec m = some (record marks m) := by
  induction marks generalizing g m with
  | nil => simp [recording, exec, record]
  | cons k ks ih =>
    rw [recording, emit] at hemit
    have hat := ((Program.at_append g.program k.code none).extends
      (extends_emit hemit)).extends hext
    rw [recording, exec, k.perform_code hq hat htime]
    have hrest := ih (m := m.emit (k.event (m.get k.swept.register))) hemit htime
    simpa [record, Machine.emit, Machine.get, Machine.read] using hrest

/-- What one iteration records. -/
def lapEvents (marks : List Mark) (i : Nat) : List Event :=
  marks.map fun k => k.event (k.swept.value i)

theorem lapEvents_reduced (marks : List Mark) : lapEvents (marks.map (·.reduced)) =
    fun i => marks.map fun k => k.event (k.swept.reduced.value i) := by
  funext i
  rw [lapEvents, List.map_map]
  rfl

/-- **Lap by lap, the values of the swept registers are recorded.** -/
theorem foldlM_recording {s : Sweep} (hvalid : ∀ r ∈ s.owned, r.Valid) (hnodup : s.owned.Nodup)
    (hmarks : ∀ k ∈ marks, k.swept ∈ s.registers)
    (hbody : ∀ m : Machine, m.timeOffset = 0 →
      (recording marks).exec m = some (record marks m)) (n : Nat) (htime : m.timeOffset = 0) :
    ∃ m', (List.range n).foldlM (fun m i => (recording marks).exec (s.load i m)) m = some m' ∧
      m'.timeOffset = 0 ∧
      m'.events.toList = m.events.toList ++ (List.range n).flatMap (lapEvents marks) := by
  induction n with
  | zero => exact ⟨m, rfl, htime, by simp⟩
  | succ n ih =>
    obtain ⟨m₁, hlaps, htime₁, hevents⟩ := ih
    have hlap := hbody (s.load n m₁) (by simpa using htime₁)
    refine ⟨_, by rw [List.range_succ, List.foldlM_append, hlaps]; simpa using hlap, ?_, ?_⟩
    · simpa [record] using htime₁
    · have hvalues : (marks.map fun k => k.event ((s.load n m₁).get k.swept.register)) =
          lapEvents marks n :=
        List.map_congr_left fun k hk => by rw [Sweep.get_load hvalid hnodup _ (hmarks k hk)]
      simp [record, hvalues, hevents, List.range_succ]

/-- A nest that has been written from the beginning, and then been ended, runs to its end. -/
theorem exists_run_of_exec {t : LoopNest} {comment : Option String} {m : Machine}
    (hnew : g.program = {}) (hemit : t.emit g = .ok g')
    (hws : (g'.program.append .halt comment).encode = .ok ws) (hproper : t.Proper [])
    (hexec : t.exec {} = some m) :
    ∃ n, ∀ limit ≥ n, (Emulator.ofWords ws limit).run = (.ok (), { Emulator.ofWords ws limit with
      machine := { m with pc := ws.length, halted := true }, steps := n }) := by
  obtain ⟨ms, hpass, hrun, -, -⟩ := compiled_emit hws hemit
    (Program.extends_append g'.program .halt comment) hproper (by simp) (by simp) _ _ hexec rfl
  have hend := Program.At.next?_halt hws (Program.at_append g'.program .halt comment) hrun
  have hlength := Program.length_encode hws
  rw [Program.size_append] at hlength
  rw [hnew] at hpass
  rw [← hlength] at hend
  have hexecutes : Executes ws.toArray {} (ms ++ [m.goto g'.program.size])
      { m with pc := ws.length, halted := true } := hpass.executes.trans (.single hend)
  refine ⟨ms.length + 1, fun limit hlimit => ?_⟩
  obtain ⟨hresult, -⟩ := Emulator.run_of_executes (e := Emulator.ofWords ws limit) hexecutes rfl
    (by simpa [Emulator.ofWords] using hlimit)
  simpa [Emulator.ofWords] using hresult

variable {s : Sweep} {comment : Option String}

/-- **A sweep that records runs to its end, and has then recorded the values of its reduced
registers.** -/
theorem exists_run_recording (hnew : g.program = {}) (hmarks : ∀ k ∈ marks, k.swept ∈ s.registers)
    (hemit : (loop s (recording marks) done).emit g = .ok g')
    (hws : (g'.program.append .halt comment).encode = .ok ws) :
    ∃ m n, (∀ limit ≥ n, (Emulator.ofWords ws limit).run =
        (.ok (), { Emulator.ofWords ws limit with machine := m, steps := n })) ∧
      m.halted = true ∧
      m.events.toList = (List.range s.count.toNat).flatMap (lapEvents (marks.map (·.reduced))) := by
  -- The reduced sweep has the same words, and its steps are narrow.
  obtain ⟨q', hemit', hspells⟩ := emit_reduced hemit (.refl g.program)
  have hws' := (hspells.append_self .halt comment).encode hws
  have hproper : (loop s (recording marks) done).reduced.Proper [] := by
    refine ⟨fun r hr => ?_, by rw [reduced_recording]; exact proper_recording .., trivial⟩
    obtain ⟨r, -, rfl⟩ := List.mem_map.1 hr
    exact r.narrow_reduced
  obtain ⟨inner, inner', henter, hbody, hrest⟩ := emit_loop_eq_ok hemit'
  obtain ⟨-, hfree, hnodup, -, -⟩ := SweepGenerator.enter_eq_ok henter
  have hclosed : (inner'.leave g s.reduced).program.Extends (q'.append .halt comment) := by
    rw [Except.ok.inj hrest]
    exact Program.extends_append ..
  have hvalid := Sweep.valid_of_closed hws' (fun r hr => (hfree r hr).1) hclosed
  have hbodyExt := (SweepGenerator.grows_leave inner' g s.reduced).extends.trans hclosed
  rw [reduced_recording, ← recording_reduced] at hbody
  have hreduced : ∀ k ∈ marks.map (·.reduced), k.swept ∈ s.reduced.registers := by
    intro k hk
    obtain ⟨k', hk', rfl⟩ := List.mem_map.1 hk
    exact List.mem_map_of_mem (hmarks k' hk')
  obtain ⟨m, hlaps, -, hevents⟩ := foldlM_recording (m := {}) hvalid hnodup hreduced
    (fun m htime => exec_recording hws' hbody hbodyExt htime) s.count.toNat rfl
  have hexec : (loop s (recording marks) done).reduced.exec {} =
      some (s.reduced.load s.count.toNat m) := by
    rw [reduced, exec, reduced_recording, ← recording_reduced]
    exact Option.bind_eq_some_iff.2 ⟨m, hlaps, rfl⟩
  obtain ⟨n, hn⟩ := exists_run_of_exec hnew hemit' hws' hproper hexec
  exact ⟨_, n, hn, rfl, by simpa using hevents⟩

/-- The steps of a sweep that has been accepted fit immediates. -/
theorem fits_of_emit {body : LoopNest} (hemit : (loop s body done).emit g = .ok g')
    (hws : (g'.program.append .halt comment).encode = .ok ws) :
    ∀ r ∈ s.registers, Isa.FieldKind.immediate.Fits r.step := by
  obtain ⟨inner, inner', -, -, hrest⟩ := emit_loop_eq_ok hemit
  have hclosed : (inner'.leave g s).program.Extends (g'.program.append .halt comment) := by
    rw [Except.ok.inj hrest]
    exact Program.extends_append ..
  exact SweepGenerator.fits_of_advances hws ((Program.extends_append ..).trans hclosed)

/-- **What a sweep records.**  A sweep that is accepted, and whose body does nothing but put out its
registers, runs to its end under every limit that leaves enough steps.  Lap by lap it records the
values that its registers have with their steps taken modulo `2 ^ 31`.  They are the values that the
sweep describes unless there is a second lap, the register has all of its bits, and the step is
`2 ^ 30` or more. -/
theorem recording_runs (hnew : g.program = {}) (hmarks : ∀ k ∈ marks, k.swept ∈ s.registers)
    (hemit : (loop s (recording marks) done).emit g = .ok g')
    (hws : (g'.program.append .halt comment).encode = .ok ws) :
    (∃ m n, (∀ limit ≥ n, (Emulator.ofWords ws limit).run =
        (.ok (), { Emulator.ofWords ws limit with machine := m, steps := n })) ∧
      m.halted = true ∧
      m.events.toList = (List.range s.count.toNat).flatMap fun i =>
        marks.map fun k => k.event (k.swept.reduced.value i)) ∧
    ∀ j r, s.registers[j]? = some r →
      s.reduced.values j = (List.range s.count.toNat).map r.reduced.value ∧
      (s.reduced.values j = s.values j ↔
        s.count.toNat ≤ 1 ∨ r.width ≤ 31 ∨ Isa.Narrow r.step) := by
  constructor
  · obtain ⟨m, n, hrun, hhalted, hevents⟩ := exists_run_recording hnew hmarks hemit hws
    rw [lapEvents_reduced] at hevents
    exact ⟨m, n, hrun, hhalted, hevents⟩
  · intro j r hr
    have hfits := fits_of_emit hemit hws r (List.mem_of_getElem? hr)
    exact ⟨Sweep.values_reduced hr, Sweep.values_reduced_iff hr hfits⟩

/-- Two registers that are put out in each lap, one of them narrow, the other with a step of which
31 bits are kept. -/
def ramp : Sweep where
  name := "ramp"
  count := 3
  counter := ⟨0, 14⟩
  registers := [{ register := ⟨0, 16⟩, start := -16, step := 2147483647, width := 31 },
    { register := ⟨1, 19⟩, start := 7, step := 2147483647 }]

theorem recording_runs_ramp : ∃ g' ws m n,
    (loop ramp (recording (ramp.registers.map (⟨3, 0, ·⟩))) done).emit {} = .ok g' ∧
    (g'.program.append .halt).encode = .ok ws ∧
    (∀ limit ≥ n, (Emulator.ofWords ws limit).run =
      (.ok (), { Emulator.ofWords ws limit with machine := m, steps := n })) ∧
    m.events.toList = [.seti 3 0 2147483632, .seti 3 0 7, .seti 3 0 2147483631, .seti 3 0 6,
      .seti 3 0 2147483630, .seti 3 0 5] ∧
    ramp.reduced.values 0 = ramp.values 0 ∧ ramp.reduced.values 1 ≠ ramp.values 1 := by
  obtain ⟨g', ws, hemit, hws⟩ : ∃ g' ws,
      (loop ramp (recording (ramp.registers.map (⟨3, 0, ·⟩))) done).emit {} = .ok g' ∧
        (g'.program.append .halt).encode = .ok ws := ⟨_, _, rfl, rfl⟩
  obtain ⟨⟨m, n, hrun, -, hevents⟩, hvalues⟩ := recording_runs rfl (by simp [ramp]) hemit hws
  refine ⟨g', ws, m, n, hemit, hws, hrun, hevents.trans (by decide +kernel), ?_, ?_⟩
  · exact (hvalues 0 _ rfl).2.2 (.inr (.inl (by decide)))
  · exact fun heq => absurd ((hvalues 1 _ rfl).2.1 heq) (by decide)

/-- A register of full width with a step of `2 ^ 30`. -/
def scan : Sweep where
  name := "scan"
  count := 2
  counter := ⟨0, 14⟩
  registers := [{ register := ⟨0, 16⟩, start := 0, step := 1073741824 }]

/-- **A sweep that is accepted need not take the values that it describes.**  Its step is read with
sign, so the value in the second lap is off by `2 ^ 31`. -/
theorem recording_scan_not_values : ∃ g' ws m n,
    (loop scan (recording (scan.registers.map (⟨0, 0, ·⟩))) done).emit {} = .ok g' ∧
    (g'.program.append .halt).encode = .ok ws ∧
    (∀ limit ≥ n, (Emulator.ofWords ws limit).run =
      (.ok (), { Emulator.ofWords ws limit with machine := m, steps := n })) ∧
    m.events.toList = [.seti 0 0 0, .seti 0 0 3221225472] ∧
    scan.values 0 = [0, 1073741824] := by
  obtain ⟨g', ws, hemit, hws⟩ : ∃ g' ws,
      (loop scan (recording (scan.registers.map (⟨0, 0, ·⟩))) done).emit {} = .ok g' ∧
        (g'.program.append .halt).encode = .ok ws := ⟨_, _, rfl, rfl⟩
  obtain ⟨m, n, hrun, -, hevents⟩ := exists_run_recording rfl (by simp [scan]) hemit hws
  exact ⟨g', ws, m, n, hemit, hws, hrun, hevents.trans (by decide +kernel), by decide +kernel⟩

end LoopNest
end PulseProcessor
