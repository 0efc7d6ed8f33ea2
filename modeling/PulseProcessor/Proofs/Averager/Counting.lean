import PulseProcessor.Proofs.Averager.Shots

/-! # Every shot is counted once

The parts of an averaging program are in the program one behind the other, and the registers it
needs are different ones, because the generator has refused everything else
(`AveragerConfig.shooting`).  So the loops run as they are meant to, from the clearing of the shot
register to the end, and each shot is published once, in order
(`AveragerConfig.publishes_every_shot`).
-/

namespace PulseProcessor
namespace AveragerConfig

open Machine (Passage)

variable {c : AveragerConfig} {ws : List Word} {q p p' : Program} {seen : List Machine}
  {code : List Instruction} {m m' : Machine} {ms : List Machine}

/-! ### All shots -/

section
variable {s : Sequencer} {g mid inner : SweepGenerator}

theorem start_eq_ok (h : c.start s = .ok g) : c.shotRegister.number ≠ 0 ∧
    g.liveRegisters = [c.shotRegister] ∧ g.program = s.program.append
      (.regwi c.shotRegister.page c.shotRegister.number 0) (some "shot counter") := by
  obtain ⟨g₁, hreserve, h⟩ := bind_eq_ok_iff.1 h
  obtain rfl := Except.ok.inj h
  obtain ⟨hzero, -, hprogram, hlive⟩ := SweepGenerator.reserve_eq_ok hreserve
  exact ⟨hzero, hlive, by rw [hprogram]⟩

theorem outer_eq_ok (h : c.outer g = .ok mid) : c.exptOwned.Nodup ∧
    (∀ r ∈ c.exptOwned, r.number ≠ 0 ∧ r ∉ g.liveRegisters) ∧
    mid.liveRegisters = g.liveRegisters ++ c.exptOwned ∧ g.program.Extends mid.program := by
  unfold outer at h
  unfold exptOwned
  split at h
  · obtain ⟨-, hfree, hnodup, hlive, -⟩ := SweepGenerator.enter_eq_ok h
    exact ⟨hnodup, hfree, hlive, (SweepGenerator.grows_enter h).extends⟩
  · cases h
    exact ⟨.nil, by simp, by simp, .refl _⟩

theorem extends_finish (c : AveragerConfig) (p' : Program) :
    (c.repsSweep.closed (c.publish p')).Extends (c.finish p') := by
  unfold finish
  split
  · exact (Sweep.addsOnly_closed _ _).toExtends
  · exact .refl _

/-- **The loop over repetitions is in its place**, with the registers it needs. -/
theorem looping (hq : q.encode = .ok ws) (hg : c.start s = .ok g) (hmid : c.outer g = .ok mid)
    (hinner : mid.enter c.repsSweep = .ok inner) (hemits : inner.program.Emits code p')
    (hext : (c.finish p').Extends q) (haddr : c.counterAddr.toNat < 1024)
    (hspares : ∀ i ∈ code, i.Spares (c.repsRegister :: c.exptOwned)) :
    c.Looping q ws code mid.program inner.program p' := by
  obtain ⟨hzero, hlive, -⟩ := start_eq_ok hg
  obtain ⟨hnodup, hfree, hlive', -⟩ := outer_eq_ok hmid
  obtain ⟨-, hfree', -⟩ := SweepGenerator.enter_eq_ok hinner
  have hclosed := (c.extends_finish p').trans hext
  have hstands := Sweep.Stands.of_enter hq hinner (by simp [repsSweep])
    (hemits.toExtends.trans (extends_publish c p')) hclosed
  have hshot : c.shotRegister.Valid := by
    have hat := (Program.at_append p' (.mathi c.shotRegister.page c.shotRegister.number
      c.shotRegister.number (.known .add) 1) none).extends ((Program.extends_append ..).trans
        ((c.repsSweep.addsOnly_closed (c.publish p')).toExtends.trans hclosed))
    obtain ⟨w, -, hw⟩ := hat.exists_word hq
    obtain ⟨hpage, hnumber, -⟩ := Machine.effect_mathi hw
    exact ⟨hpage, hnumber, hzero⟩
  have hexpts : ∀ r ∈ c.exptOwned, r.Valid := by
    unfold exptOwned finish at *
    split
    · rename_i e he
      rw [he] at hfree hext
      exact Sweep.valid_of_closed hq (fun r hr => (hfree r hr).1) hext
    · simp
  have hnew : c.repsRegister ∉ mid.liveRegisters := (hfree' _ (List.mem_cons_self ..)).2
  rw [hlive', hlive] at hnew
  refine ⟨hstands, hemits, haddr, hspares, ?_, ?_⟩
  · simp only [needed, List.forall_mem_cons]
    exact ⟨hshot, hstands.valid _ (List.mem_cons_self ..), hexpts⟩
  · simp only [needed, List.nodup_cons, List.mem_cons, not_or]
    refine ⟨⟨fun heq => hnew (by simp [heq]), fun hmem => (hfree _ hmem).2 ?_⟩, fun hmem => ?_,
      hnodup⟩
    · rw [hlive]
      exact List.mem_singleton_self _
    · exact hnew (List.mem_append_right _ hmem)

theorem shooting (hq : q.encode = .ok ws) (hg : c.start s = .ok g) (hmid : c.outer g = .ok mid)
    (hinner : mid.enter c.repsSweep = .ok inner) (hemits : inner.program.Emits code p')
    (hext : (c.finish p').Extends q) (haddr : c.counterAddr.toNat < 1024)
    (hcode : c.Tolerates code) : c.Shooting q ws code mid.program inner.program p' where
  toLooping := looping hq hg hmid hinner hemits hext haddr fun i hi =>
    ⟨hcode.straight i hi, fun r hr hmem => hcode.free i hi r hr (List.mem_cons_of_mem _ hmem)⟩
  code := hcode

/-- The outer sweep stands around the loop over repetitions. -/
theorem Looping.stands_outer {e : Sweep} (hexpts : c.expts = some e) (henter : g.enter e = .ok mid)
    (h : c.Looping q ws code mid.program p p') (hext : (c.finish p').Extends q)
    (hnarrow : ∀ r ∈ c.swept, Isa.Narrow r.step) :
    e.Stands q ws g.program mid.program (c.repsSweep.closed (c.publish p')) := by
  rw [finish, hexpts] at hext
  rw [swept, hexpts] at hnarrow
  exact .of_enter h.stands.encode henter hnarrow (h.stands.addsOnly.toExtends.trans
    (h.stands.body.trans (c.repsSweep.addsOnly_closed _).toExtends)) hext

/-- **The loops do what they are to do**, whatever is counted. -/
theorem Looping.passage_shootAll (hmid : c.outer g = .ok mid)
    (h : c.Looping q ws code mid.program p p') (hext : (c.finish p').Extends q)
    (hnarrow : ∀ r ∈ c.swept, Isa.Narrow r.step) (hshoot : c.shootAll code m = some m')
    (hrun : m.halted = false) :
    ∃ ms, Passage ws.toArray m g.program.size m' (c.finish p').size ms ∧ m'.halted = false := by
  cases hexpts : c.expts with
  | none =>
    rw [outer, hexpts] at hmid
    rw [shootAll, hexpts] at hshoot
    rw [finish, hexpts]
    cases hmid
    obtain ⟨ms, hms, hrun', -⟩ := h.passage_repeatShots hshoot hrun
    exact ⟨ms, hms, hrun'⟩
  | some e =>
    rw [outer, hexpts] at hmid
    rw [shootAll, hexpts] at hshoot
    have hs := h.stands_outer hexpts hmid hext hnarrow
    rw [finish, hexpts]
    have hkeeps : e.Keeps ws mid.program (c.repsSweep.closed (c.publish p'))
        (c.repeatShots code) fun _ _ _ => True := by
      intro j x x' seen hj hrepeat hrun _
      obtain ⟨ms, hms, hrun', hsame⟩ := h.passage_repeatShots hrepeat (by simpa using hrun)
      rw [exptOwned, hexpts] at hsame
      exact ⟨ms, hms, hrun', hsame, fun _ _ => trivial⟩
    obtain ⟨-, ms, -, hms, hrun', -⟩ :=
      hs.passage [] hkeeps hshoot hrun fun _ _ => trivial
    exact ⟨ms, hms, hrun'⟩

/-- **All shots**: the inner loop alone, or inside of the outer sweep. -/
theorem passage_shootAll (hmid : c.outer g = .ok mid)
    (h : c.Shooting q ws code mid.program p p') (hext : (c.finish p').Extends q)
    (hnarrow : ∀ r ∈ c.swept, Isa.Narrow r.step) (hshoot : c.shootAll code m = some m')
    (hrun : m.halted = false) (hzero : m.get c.shotRegister = 0)
    (hcounted : c.Counted ws p.size 0 seen) :
    ∃ ms, Passage ws.toArray m g.program.size m' (c.finish p').size ms ∧ m'.halted = false ∧
      c.Counted ws p.size c.totalCount (seen ++ ms) := by
  rw [totalCount_eq]
  unfold outer at hmid
  unfold shootAll at hshoot
  unfold finish at hext ⊢
  cases hexpts : c.expts with
  | none =>
    rw [hexpts] at hmid hshoot hext
    cases hmid
    obtain ⟨ms, hms, hrun', -, -, hcounted'⟩ := h.passage_repeatShots (j := 0)
      (by simp [exptCount, hexpts]) hshoot hrun (by simp [swept, hexpts]) (by simpa using hzero)
      (by simpa using hcounted)
    rw [show c.reps.toNat * c.exptCount = (0 + 1) * c.reps.toNat by simp [exptCount, hexpts]]
    exact ⟨ms, hms, hrun', hcounted'⟩
  | some s =>
    rw [hexpts] at hmid hshoot hext
    have hs := h.stands_outer hexpts hmid (by rwa [finish, hexpts]) hnarrow
    have hfirst : ∀ ms : List Machine, (∀ x ∈ ms, g.program.size ≤ x.pc ∧
        x.pc < mid.program.size) → c.Counted ws p.size (0 * c.reps.toNat) (seen ++ ms) := by
      intro ms hms
      rw [Nat.zero_mul]
      refine hcounted.quiet (fun x hx => ?_) (stored?_eq_none_of_addsOnly hs.encode hs.addsOnly
        hs.extends_open (Nat.le_refl _) (Nat.le_refl _) hms)
      have := h.stands.outer_lt
      have := hms x hx
      omega
    obtain ⟨m₁, ms, -, hms, hrun', -, hcounted'⟩ := hs.passage seen (h.keeps_outer hexpts hs)
      hshoot hrun fun ms hms => ⟨by simpa using hzero, hfirst ms hms⟩
    rw [show c.reps.toNat * c.exptCount = s.count.toNat * c.reps.toNat by
      simp [exptCount, hexpts, Nat.mul_comm]]
    exact ⟨ms, hms, hrun', hcounted'⟩

/-- The load of the shot register stands behind the caller's first code. -/
theorem extends_start (hg : c.start s = .ok g) (hmid : c.outer g = .ok mid)
    (h : c.Looping q ws code mid.program p p') : (s.program.append
      (.regwi c.shotRegister.page c.shotRegister.number 0) (some "shot counter")).Extends q := by
  obtain ⟨-, -, hprogram⟩ := start_eq_ok hg
  obtain ⟨-, -, -, hopen⟩ := outer_eq_ok hmid
  rw [← hprogram]
  exact hopen.trans (h.stands.addsOnly.toExtends.trans h.stands.extends_open)

/-- **From the caller's first code to the end**: the shot register is cleared, then come the
loops. -/
theorem Looping.executes_of_passage (hq : q.encode = .ok ws)
    (hend : q = (c.finish p').append .halt) (hg : c.start s = .ok g) (hmid : c.outer g = .ok mid)
    (h : c.Looping q ws code mid.program p p') (hrun : m.halted = false)
    (hloops : Passage ws.toArray (m.put c.shotRegister 0) g.program.size m' (c.finish p').size ms)
    (hrun' : m'.halted = false) :
    Machine.Executes ws.toArray (m.goto s.program.size)
      (([m.goto s.program.size] ++ ms) ++ [m'.goto (c.finish p').size])
      { m' with pc := ws.length, halted := true } := by
  obtain ⟨-, -, hprogram⟩ := start_eq_ok hg
  have hclear := (Program.at_append s.program
    (.regwi c.shotRegister.page c.shotRegister.number 0) _).extends (extends_start hg hmid h)
  have hnext := hclear.next?_regwi hq hrun
  have hhalt : q.At (c.finish p').size .halt := hend ▸ Program.at_append ..
  have hlast := hhalt.next?_halt hq hrun'
  have hlength := Program.length_encode hq
  rw [hend, Program.size_append] at hlength
  rw [← hlength] at hlast
  have hexecutes := hloops.executes
  rw [hprogram, Program.size_append] at hexecutes
  exact ((Machine.Executes.single hnext).trans hexecutes).trans (.single hlast)

/-- All shots are counted on the way. -/
theorem executes_counting (hq : q.encode = .ok ws) (hend : q = (c.finish p').append .halt)
    (hg : c.start s = .ok g) (hmid : c.outer g = .ok mid)
    (h : c.Shooting q ws code mid.program p p') (hnarrow : ∀ r ∈ c.swept, Isa.Narrow r.step)
    (hrun : m.halted = false) (hshoot : c.shootAll code (m.put c.shotRegister 0) = some m') :
    ∃ ms, Machine.Executes ws.toArray (m.goto s.program.size) ms
        { m' with pc := ws.length, halted := true } ∧
      s.program.size < p.size ∧ (∀ x ∈ ms, s.program.size ≤ x.pc) ∧
      c.Counted ws p.size c.totalCount ms := by
  have hext : (c.finish p').Extends q := hend ▸ Program.extends_append _ .halt none
  obtain ⟨-, -, hprogram⟩ := start_eq_ok hg
  obtain ⟨-, -, -, hopen⟩ := outer_eq_ok hmid
  have hsize := hopen.size_le
  have houter := h.stands.outer_lt
  have hbody := h.stands.body.size_le
  have hclosed := c.repsSweep.size_lt_size_closed (c.publish p')
  have hfinish := (c.extends_finish p').size_le
  rw [hprogram, Program.size_append] at hsize
  -- Neither the load of the shot register nor the end stores anything.
  have hclear := (Program.at_append s.program (.regwi c.shotRegister.page c.shotRegister.number 0)
    _).extends (extends_start hg hmid h.toLooping)
  have hbefore : c.Counted ws p.size 0 [m.goto s.program.size] :=
    Counted.nil.quiet (List.forall_mem_singleton.2 (by simp only [Machine.goto_pc]; omega))
      (List.forall_mem_singleton.2 (Machine.stored?_goto_eq_none hq hclear rfl))
  obtain ⟨ms, hms, hrun', hcounted⟩ := passage_shootAll hmid h hext hnarrow hshoot
    (by simpa using hrun) (Machine.get_put_self h.valid_shot) hbefore
  have hhalt : q.At (c.finish p').size .halt := hend ▸ Program.at_append ..
  have hbetween := hms.visits.between
  rw [hprogram, Program.size_append] at hbetween
  refine ⟨_, h.executes_of_passage hq hend hg hmid hrun hms hrun', by omega, fun x hx => ?_, ?_⟩
  · simp only [List.mem_append, List.mem_singleton] at hx
    rcases hx with (rfl | hx) | rfl
    · exact Nat.le_refl _
    · have := hbetween x hx
      omega
    · simp only [Machine.goto_pc]
      omega
  · exact hcounted.quiet
      (List.forall_mem_singleton.2 (by simp only [Machine.goto_pc]; omega))
      (List.forall_mem_singleton.2 (Machine.stored?_goto_eq_none hq hhalt rfl))

end

/-- The caller's functions, where they are called, write `setup` and `code`. -/
structure Writes (c : AveragerConfig) (initially body : Sequencer → Except AssemblyError Sequencer)
    (setup code : List Instruction) : Prop where
  setup : ∀ s, initially {} = .ok s → ({} : Program).Emits setup s.program
  shot : ∀ s inner s', initially {} = .ok s → c.front s = .ok inner →
    body { program := inner.program } = .ok s' → inner.program.Emits code s'.program

/-- **An averaging program publishes every shot exactly once, in order.**  If the caller's functions
write straight-line code that can be executed, and the program can be written and encoded, then
under every limit that leaves enough steps the emulator comes to the end, in the state that the
nested loops have led to.  It has been at the body's beginning once for each of the shots, with the
registers of the outer sweep at the shot's point; and what has been stored since the caller's first
code are the numbers of the shots, all of them at the counter's address. -/
theorem publishes_every_shot {initially body : Sequencer → Except AssemblyError Sequencer}
    {setup : List Instruction} {built : AveragerProgram}
    (hbuilt : c.write initially body = .ok built) (hws : built.program.encode = .ok ws)
    (hwrites : c.Writes initially body setup code) (hsetup : ∀ i ∈ setup, i.Straight)
    (hcode : c.Tolerates code) (haddr : c.counterAddr.toNat < 1024)
    (hnarrow : ∀ r ∈ c.swept, Isa.Narrow r.step) (hexec : c.exec setup code = some m) :
    ∃ head n, built.program.labelPc? repsLoop = some head ∧
      (∀ (k : Nat) i, code[k]? = some i → built.program.At (head + k) i) ∧
      ∀ limit ≥ n,
        (Emulator.ofWords ws limit).run = (.ok (), { Emulator.ofWords ws limit with
          machine := { m with pc := ws.length, halted := true }, steps := n }) ∧
        List.Forall₂ c.Ready (List.range built.totalCount)
          ((Emulator.ofWords ws limit).visited.filter (·.pc = head)) ∧
        ((Emulator.ofWords ws limit).visited.filter (setup.length ≤ ·.pc)).filterMap
            (Machine.stored? ws.toArray) =
          (List.range built.totalCount).map fun k => (c.counterAddr.toNat, .ofNat (k + 1)) := by
  obtain ⟨s, inner, s', hs, hfront, hs', rfl⟩ := write_eq_ok hbuilt
  obtain ⟨g, mid, hg, hmid, hinner⟩ := front_eq_ok_iff.1 hfront
  have hemits := hwrites.shot s inner s' hs hfront hs'
  have hemits₀ := hwrites.setup s hs
  have hsize : s.program.size = setup.length := by
    rw [hemits₀.size_eq]
    exact Nat.zero_add _
  have h := shooting hws hg hmid hinner hemits (Program.extends_append ..) haddr hcode
  obtain ⟨m₀, hperform, hshoot⟩ := Option.bind_eq_some_iff.1 hexec
  have hat : ∀ (k : Nat) i, setup[k]? = some i → _ := fun k i hi =>
    (hemits₀.at_add hi).extends
      ((Program.extends_append ..).trans (extends_start hg hmid h.toLooping))
  obtain ⟨ms₀, hms₀, hrun₀, -⟩ := Program.passage_performAll hws hsetup hat rfl hperform
  obtain ⟨ms, hms, hhead, hbehind, hcounted⟩ :=
    executes_counting hws rfl hg hmid h hnarrow hrun₀ hshoot
  rw [hsize] at hms hhead hbehind
  rw [show ({} : Program).size = 0 from rfl, Nat.zero_add] at hms₀
  refine ⟨inner.program.size, (ms₀ ++ ms).length, h.stands.head, fun k i hi =>
    (h.emits.at_add hi).extends ((extends_publish c _).trans h.extends_closed),
    fun limit hlimit => ?_⟩
  obtain ⟨hresult, hvisited⟩ := Emulator.run_of_executes (e := Emulator.ofWords ws limit)
    (hms₀.executes.trans hms) rfl (by simpa [Emulator.ofWords] using hlimit)
  rw [hvisited]
  exact ⟨by simpa [Emulator.ofWords] using hresult,
    hcounted.behind (fun x hx => (hms₀.visits.between x hx).2) (Nat.le_of_lt hhead) hbehind⟩

/-- Three shots at each of two values of a register. -/
def gainSteps : AveragerConfig where
  reps := 3
  expts := some { name := "LOOP_GAIN", count := 2, counter := ⟨0, 14⟩,
                  registers := [{ register := ⟨0, 16⟩, start := 100, step := -30 }] }

theorem publishes_every_shot_gainSteps :
    let initially (s : Sequencer) : Except AssemblyError Sequencer :=
      .ok { s with program := s.program.append (.synci 200) }
    let body (s : Sequencer) : Except AssemblyError Sequencer :=
      .ok { s with program := s.program.append (.seti 1 0 16 0) }
    ∃ built ws m, gainSteps.write initially body = .ok built ∧ built.program.encode = .ok ws ∧
      gainSteps.Writes initially body [.synci 200] [.seti 1 0 16 0] ∧
      gainSteps.Tolerates [.seti 1 0 16 0] ∧ gainSteps.counterAddr.toNat < 1024 ∧
      (∀ r ∈ gainSteps.swept, Isa.Narrow r.step) ∧
      gainSteps.exec [.synci 200] [.seti 1 0 16 0] = some m ∧ built.totalCount = 6 ∧
      m.events = #[.seti 1 200 100, .seti 1 200 100, .seti 1 200 100, .seti 1 200 70,
        .seti 1 200 70, .seti 1 200 70] ∧ m.load? 1 = some 6 ∧
      ∃ head n, built.program.labelPc? repsLoop = some head ∧
        (∀ (k : Nat) i, [Instruction.seti 1 0 16 0][k]? = some i →
          built.program.At (head + k) i) ∧
        ∀ limit ≥ n,
          (Emulator.ofWords ws limit).run = (.ok (), { Emulator.ofWords ws limit with
            machine := { m with pc := ws.length, halted := true }, steps := n }) ∧
          List.Forall₂ gainSteps.Ready (List.range built.totalCount)
            ((Emulator.ofWords ws limit).visited.filter (·.pc = head)) ∧
          ((Emulator.ofWords ws limit).visited.filter (1 ≤ ·.pc)).filterMap
              (Machine.stored? ws.toArray) =
            (List.range built.totalCount).map fun k =>
              (gainSteps.counterAddr.toNat, .ofNat (k + 1)) := by
  intro initially body
  obtain ⟨built, ws, hbuilt, hws, htotal⟩ : ∃ built ws, gainSteps.write initially body = .ok built ∧
      built.program.encode = .ok ws ∧ built.totalCount = 6 := ⟨_, _, rfl, rfl, rfl⟩
  have hwrites : gainSteps.Writes initially body [.synci 200] [.seti 1 0 16 0] := by
    constructor
    · rintro s ⟨⟩
      exact ⟨Program.extends_append .., rfl⟩
    · rintro s inner s' - - ⟨⟩
      exact ⟨Program.extends_append .., by simp [Program.append, Program.instructions]⟩
  have hcode : gainSteps.Tolerates [.seti 1 0 16 0] := by constructor <;> decide
  have hexec : (gainSteps.exec [.synci 200] [.seti 1 0 16 0]).map
      (fun m => (m.events, m.load? 1)) = some (#[.seti 1 200 100, .seti 1 200 100,
        .seti 1 200 100, .seti 1 200 70, .seti 1 200 70, .seti 1 200 70], some 6) := by
    decide +kernel
  obtain ⟨m, hexec, hm⟩ := Option.map_eq_some_iff.1 hexec
  obtain ⟨hevents, hmemory⟩ := Prod.mk.inj hm
  have hnarrow : ∀ r ∈ gainSteps.swept, Isa.Narrow r.step := by decide
  exact ⟨built, ws, m, hbuilt, hws, hwrites, hcode, by decide, hnarrow, hexec, htotal, hevents,
    hmemory, publishes_every_shot hbuilt hws hwrites (by decide) hcode (by decide) hnarrow hexec⟩

end AveragerConfig
end PulseProcessor
