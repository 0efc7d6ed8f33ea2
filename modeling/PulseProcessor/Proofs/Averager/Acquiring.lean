import PulseProcessor.Acquisition
import PulseProcessor.Proofs.Averager.Counting
import PulseProcessor.Proofs.Pulse.Latching

/-! # Acquisitions play the pulse they are asked for

The pulse of an acquisition is set up once, in front of all loops; what its updates put in effect
later is what is in its registers then.  While the program runs it writes the counters of its loops,
the count of the shots, and the pattern of the triggers, and in each shot the start time.  A channel
map may put the parameters of the pulse in any of these registers: the generator reserves the
registers that it sweeps, and has not been told about the others.

So the pulse is the one asked for if its registers are its own (`Acquisition.Undisturbed`).  Then
one shot plays one pulse (`Acquisition.Played.shoot`), all shots of a gain as many as there are
repetitions, and all gains the pulses of the whole experiment (`Acquisition.plays_the_pulse`).  If
they are not, it may play less, or other ones (`Acquisition.aliased_pulse_not_played`).
-/

namespace PulseProcessor

/-! ### Averaging programs that are run -/

namespace AveragerConfig

variable {c : AveragerConfig} {s : Sequencer} {inner : SweepGenerator} {p q : Program}
  {ws : List Word} {setup code : List Instruction} {m : Machine}

/-- What stands in front of the body stands behind the caller's first code. -/
theorem extends_front (h : c.front s = .ok inner) : s.program.Extends inner.program := by
  obtain ⟨g, mid, hg, hmid, hinner⟩ := front_eq_ok_iff.1 h
  obtain ⟨-, -, hprogram⟩ := start_eq_ok hg
  obtain ⟨-, -, -, hopen⟩ := outer_eq_ok hmid
  rw [hprogram] at hopen
  exact ((Program.extends_append ..).trans hopen).trans (SweepGenerator.grows_enter hinner).extends

theorem extends_end (c : AveragerConfig) (p : Program) :
    p.Extends ((c.finish p).append .halt) :=
  ((extends_publish c p).trans (c.repsSweep.addsOnly_closed _).toExtends).trans
    ((c.extends_finish p).trans (Program.extends_append ..))

/-- **A program that has been written runs to its end**, and into the state that its loops lead
to. -/
theorem exists_run_of_exec (hfront : c.front s = .ok inner)
    (hemits₀ : ({} : Program).Emits setup s.program) (hemits : inner.program.Emits code p)
    (hws : ((c.finish p).append .halt).encode = .ok ws) (hsetup : ∀ i ∈ setup, i.Straight)
    (hspares : ∀ i ∈ code, i.Spares (c.repsRegister :: c.exptOwned))
    (haddr : c.counterAddr.toNat < 1024) (hnarrow : ∀ r ∈ c.swept, Isa.Narrow r.step)
    (hexec : c.exec setup code = some m) :
    ∃ n, ∀ limit ≥ n, (Emulator.ofWords ws limit).run = (.ok (), { Emulator.ofWords ws limit with
      machine := { m with pc := ws.length, halted := true }, steps := n }) := by
  obtain ⟨g, mid, hg, hmid, hinner⟩ := front_eq_ok_iff.1 hfront
  have hsize : s.program.size = setup.length := by
    rw [hemits₀.size_eq]
    exact Nat.zero_add _
  have hlast : (c.finish p).Extends ((c.finish p).append .halt) := Program.extends_append ..
  have h := looping hws hg hmid hinner hemits hlast haddr hspares
  obtain ⟨m₀, hperform, hshoot⟩ := Option.bind_eq_some_iff.1 hexec
  have hext := ((extends_front hfront).trans hemits.toExtends).trans (c.extends_end p)
  obtain ⟨ms₀, hms₀, hrun₀, -⟩ := Program.passage_performAll hws hsetup
    (fun k i hi => (hemits₀.at_add hi).extends hext) rfl hperform
  obtain ⟨_, hloops, hrun⟩ := h.passage_shootAll hmid hlast hnarrow hshoot (by simpa using hrun₀)
  obtain ⟨ms, hms⟩ : ∃ ms, Machine.Executes ws.toArray (m₀.goto s.program.size) ms
      { m with pc := ws.length, halted := true } :=
    ⟨_, h.executes_of_passage hws rfl hg hmid hrun₀ hloops hrun⟩
  rw [hsize] at hms
  rw [show ({} : Program).size = 0 from rfl, Nat.zero_add] at hms₀
  refine ⟨(ms₀ ++ ms).length, fun limit hlimit => ?_⟩
  obtain ⟨hresult, -⟩ := Emulator.run_of_executes (e := Emulator.ofWords ws limit)
    (hms₀.executes.trans hms) rfl (by simpa [Emulator.ofWords] using hlimit)
  simpa [Emulator.ofWords] using hresult

end AveragerConfig

namespace Acquisition

variable {a : Acquisition} {map : ChannelMap} {s s' : Sequencer} {q p : Program} {ws : List Word}
  {e : Option Sweep} {r : Register} {page : UInt8} {mode : Int} {m : Machine}

/-! ### The program -/

/-- The shape of the program, with the sweep that there may be. -/
def config (a : Acquisition) (e : Option Sweep) : AveragerConfig :=
  { reps := a.reps, expts := e }

/-- The gain, as it is swept. -/
def sweptGain (a : Acquisition) (map : ChannelMap) (r : Register) : SweptRegister :=
  ({ register := r, start := a.gainStart, step := a.gainStep } : SweptRegister).withWidth
    (map.width .gain)

/-- The sweep over gains, their register being known. -/
def gainSweep (a : Acquisition) (map : ChannelMap) (r : Register) : Sweep where
  name := gainLoop
  count := a.points
  counter := ⟨r.page, gainCounter⟩
  registers := [a.sweptGain map r]

theorem sweep?_eq_ok (h : a.sweep? map = .ok e) : (a.points ≤ 1 ∧ e = none) ∨
    ¬ a.points ≤ 1 ∧ ∃ r, map.register a.channel .gain = .ok r ∧
      e = some (a.gainSweep map r) := by
  unfold sweep? at h
  by_cases hone : a.points ≤ 1
  · rw [if_pos hone] at h
    exact .inl ⟨hone, (Except.ok.inj h).symm⟩
  · rw [if_neg hone] at h
    obtain ⟨r, hr, h⟩ := bind_eq_ok_iff.1 h
    obtain ⟨page, hpage, h⟩ := bind_eq_ok_iff.1 h
    rw [ChannelMap.page_eq hr, Except.ok.injEq] at hpage
    subst hpage
    exact .inr ⟨hone, r, hr, (Except.ok.inj h).symm⟩

/-- An acquisition is an averaging program. -/
theorem build_eq_ok {built : AveragerProgram} (h : a.build map = .ok built) :
    ∃ e, a.sweep? map = .ok e ∧
      (a.config e).write (·.setup map a.pulse) (a.shot map) = .ok built :=
  bind_eq_ok_iff.1 h

/-- **What the host is told**: every gain has all repetitions, and without a sweep there is one. -/
theorem readout_of_build {built : AveragerProgram} (h : a.build map = .ok built) :
    1 ≤ a.reps.toNat ∧ built.totalCount = a.reps.toNat * max 1 a.points.toNat ∧
      built.counterAddr = 1 ∧ max 1 built.firstPoints.length = max 1 a.points.toNat := by
  obtain ⟨e, he, hwrite⟩ := build_eq_ok h
  obtain ⟨s, inner, s', -, hfront, -, rfl⟩ := AveragerConfig.write_eq_ok hwrite
  obtain ⟨g, mid, -, -, hinner⟩ := AveragerConfig.front_eq_ok_iff.1 hfront
  obtain ⟨hreps, -⟩ := SweepGenerator.enter_eq_ok hinner
  have hreps' : a.reps.toNat ≠ 0 := fun hzero => hreps (UInt32.toNat_inj.1 hzero)
  refine ⟨Nat.pos_iff_ne_zero.2 hreps', ?_⟩
  rcases sweep?_eq_ok he with ⟨hone, rfl⟩ | ⟨hmany, r, -, rfl⟩
  · have hpoints : a.points.toNat ≤ 1 := hone
    exact ⟨by rw [Nat.max_eq_left hpoints]; rfl, rfl, by rw [Nat.max_eq_left hpoints]; rfl⟩
  · have hpoints : 1 ≤ a.points.toNat := Nat.le_of_lt (UInt32.not_le.1 hmany)
    have hlength : ((List.range a.points.toNat).map (a.sweptGain map r).value).length =
        a.points.toNat := by simp
    exact ⟨by rw [Nat.max_eq_right hpoints]; rfl, rfl, congrArg (max 1) hlength⟩

/-! ### Registers -/

/-- The counters of the loops: of repetitions, and, if there is more than one gain, of gains.  That
one is on the channel's page. -/
def counters (a : Acquisition) (page : UInt8) : List Register :=
  ⟨0, 15⟩ :: if a.points ≤ 1 then [] else [⟨page, gainCounter⟩]

/-- **The registers of the pulse are its own.**  None of them counts a loop, and those that an
update puts in effect have neither the count of the shots nor the pattern of the triggers. -/
structure Undisturbed (a : Acquisition) (map : ChannelMap) : Prop where
  counters : ∀ {name r}, name ≠ .adcFreq → map.register a.channel name = .ok r →
    r ∉ a.counters r.page
  shots : map.Unlatched a.channel ⟨0, 13⟩
  triggers : map.Unlatched a.channel triggerRegister

/-- There are only a few registers to look at. -/
theorem undisturbed_iff : a.Undisturbed map ↔ ∀ name ∈ PulseRegister.all,
    ∀ r ∈ (map.register a.channel name).toOption,
      (name ≠ .adcFreq → r ∉ a.counters r.page) ∧
        (name.Latches → r ≠ ⟨0, 13⟩ ∧ r ≠ triggerRegister) := by
  constructor
  · intro h name _ r hr
    cases hregister : map.register a.channel name with
    | error e => simp [hregister, Except.toOption] at hr
    | ok r' =>
      obtain rfl : r' = r := by simpa [hregister, Except.toOption] using hr
      exact ⟨fun hname => h.counters hname hregister,
        fun hname => ⟨fun heq => h.shots name hname (heq ▸ hregister),
          fun heq => h.triggers name hname (heq ▸ hregister)⟩⟩
  · intro h
    have hall {name r} (hr : map.register a.channel name = .ok r) :=
      h name name.mem_all r (by rw [hr]; rfl)
    exact ⟨fun hname hr => (hall hr).1 hname, fun name hname hr => ((hall hr).2 hname).1 rfl,
      fun name hname hr => ((hall hr).2 hname).2 rfl⟩

instance (a : Acquisition) (map : ChannelMap) : Decidable (a.Undisturbed map) :=
  decidable_of_iff _ undisturbed_iff.symm

theorem Undisturbed.unlatched (h : a.Undisturbed map) (hpage : map.page a.channel = .ok page)
    (hr : r ∈ a.counters page) : map.Unlatched a.channel r := by
  intro name hname hregister
  rw [ChannelMap.page_eq hregister, Except.ok.injEq] at hpage
  exact h.counters hname.2 hregister (hpage ▸ hr)

/-- What the loops need for themselves are their counters and the gain that is swept. -/
theorem mem_owned (hsweep : a.sweep? map = .ok e) (hpage : map.page a.channel = .ok page)
    (hr : r ∈ (a.config e).repsRegister :: (a.config e).exptOwned) :
    r ∈ a.counters page ∨ map.register a.channel .gain = .ok r := by
  unfold counters
  rcases sweep?_eq_ok hsweep with ⟨hone, rfl⟩ | ⟨hone, gain, hgain, rfl⟩
  · rw [if_pos hone]
    exact .inl hr
  · rw [ChannelMap.page_eq hgain, Except.ok.injEq] at hpage
    subst hpage
    rw [if_neg hone]
    simp only [AveragerConfig.exptOwned, config, gainSweep, Sweep.owned, sweptGain,
      SweptRegister.withWidth, List.map_cons, List.map_nil, List.mem_cons, List.not_mem_nil,
      or_false] at hr ⊢
    rcases hr with rfl | rfl | rfl <;> simp [hgain]

/-- The start time is not among them. -/
theorem Undisturbed.time_not_mem (h : a.Undisturbed map) (hmap : map.Sound)
    (hsweep : a.sweep? map = .ok e) (hr : map.register a.channel .time = .ok r) :
    r ∉ (a.config e).repsRegister :: (a.config e).exptOwned := fun hmem => by
  rcases mem_owned hsweep (ChannelMap.page_eq hr) hmem with hmem | hgain
  · exact h.counters (by decide) hr hmem
  · exact PulseRegister.noConfusion (hmap.injective hr hgain).2

/-- Neither is the register of the triggers. -/
theorem Undisturbed.trigger_not_mem (h : a.Undisturbed map) (hsweep : a.sweep? map = .ok e)
    (hpage : map.page a.channel = .ok page) :
    triggerRegister ∉ (a.config e).repsRegister :: (a.config e).exptOwned := by
  intro hmem
  rcases mem_owned hsweep hpage hmem with hmem | hgain
  · unfold Acquisition.counters at hmem
    split at hmem <;> simp [triggerRegister, gainCounter] at hmem
  · exact h.triggers .gain (by decide) hgain

/-! ### Code -/

/-- **One shot is one update**, with what is in the registers of the pulse. -/
theorem shifts_shot {kept : List Register} (hq : q.encode = .ok ws) (hmap : map.Sound)
    (hshot : a.shot map s = .ok s') (hext : s'.program.Extends q)
    (htime : ∀ r, map.register a.channel .time = .ok r → r ∉ kept)
    (htriggers : map.Unlatched a.channel triggerRegister) (hkept : triggerRegister ∉ kept) :
    ChannelView.Shifts map a.channel kept s.program s'.program ChannelView.latch := by
  obtain ⟨s₁, htrigger, hshot⟩ := bind_eq_ok_iff.1 hshot
  obtain ⟨⟨s₂, t⟩, hplay, hshot⟩ := bind_eq_ok_iff.1 hshot
  obtain rfl := Except.ok.inj hshot
  have hext₂ := (s₂.writes_syncAll a.relax).extends.trans hext
  have hext₁ := (Sequencer.writes_play hplay).extends.trans hext₂
  obtain ⟨p₁, hp₁, htrigger⟩ := bind_eq_ok_iff.1 htrigger
  obtain rfl := Except.ok.inj htrigger
  obtain ⟨p₂, hp₂, hplay⟩ := bind_eq_ok_iff.1 hplay
  obtain ⟨rfl, -⟩ := Prod.mk.inj (Except.ok.inj hplay)
  -- The pulse is constant: playing it is one update.
  change Sequencer.emitSet map a.pulse _ _ = .ok p₂ at hp₂
  exact ((ChannelView.Shifts.of_emitTrigger hq hmap hp₁ hext₁ htriggers hkept).trans
    (.of_emitSet hq hmap hp₂ hext₂ htime)).trans (.of_syncAll hq _ _ hext)

/-! ### Shots -/

/-- **Performing the code is one update of the channel**, and shows in no other way. -/
def Updates (map : ChannelMap) (ch : UInt8) (code : List Instruction) : Prop :=
  ∀ (v : ChannelView) (m : Machine), v.ShownBy map ch m →
    ∃ m', m.performAll code = some m' ∧ v.latch.ShownBy map ch m'

/-- What an update is meant to put in effect, at one of the gains. -/
def asked (a : Acquisition) (map : ChannelMap) (mode : Int) (j : Nat) : Latched where
  freq := a.freq
  phase := 0
  addr := 0
  gain := (a.gainStart + j * a.gainStep) % (1 <<< map.width .gain : Nat)
  mode := mode

/-- **The first `k` pulses have been played as asked for**, and the next one will be played with the
gain of point `j`. -/
def Played (a : Acquisition) (map : ChannelMap) (mode : Int) (j k : Nat) (m : Machine) : Prop :=
  ∃ v : ChannelView, v.ShownBy map a.channel m ∧ v.current = a.asked map mode j ∧
    v.latched = (List.range k).map fun k => a.asked map mode (k / a.reps.toNat)

namespace Played

variable {i j k : Nat} {code : List Instruction}

/-- Other registers make no difference. -/
theorem put {x : UInt32} (h : a.Played map mode j k m) (hmap : map.Sound) (hr : r.Valid)
    (hfree : map.Unlatched a.channel r) : a.Played map mode j k (m.put r x) := by
  obtain ⟨v, hv, hcurrent, hlatched⟩ := h
  exact ⟨v, hv.put hmap hr hfree, hcurrent, hlatched⟩

/-- Neither does data memory. -/
theorem withMemory (h : a.Played map mode j k m) (memory : Vector UInt32 1024) :
    a.Played map mode j k { m with memory } := by
  obtain ⟨v, hv, hcurrent, hlatched⟩ := h
  exact ⟨v, ⟨hv.running, hv.params, hv.latched⟩, hcurrent, hlatched⟩

/-- **One shot plays one pulse.** -/
theorem shoot (h : a.Played map mode j (j * a.reps.toNat + i) m) (hi : i < a.reps.toNat)
    (hmap : map.Sound) (hfree : map.Unlatched a.channel ⟨0, 13⟩)
    (hcode : Updates map a.channel code) :
    ∃ m', (a.config e).shoot code m = some m' ∧
      a.Played map mode j (j * a.reps.toNat + (i + 1)) m' := by
  obtain ⟨v, hv, hcurrent, hlatched⟩ := h
  have hdiv : (j * a.reps.toNat + i) / a.reps.toNat = j := by
    rw [Nat.mul_comm, Nat.mul_add_div (by omega), Nat.div_eq_of_lt hi, Nat.add_zero]
  obtain ⟨m₁, hperform, hv₁⟩ := hcode v m hv
  have hplayed : a.Played map mode j (j * a.reps.toNat + (i + 1)) m₁ := by
    refine ⟨v.latch, hv₁, hcurrent, ?_⟩
    rw [ChannelView.latch, hlatched, hcurrent, ← Nat.add_assoc, List.range_succ, List.map_append,
      List.map_singleton, hdiv]
  refine ⟨_, by rw [AveragerConfig.shoot, hperform]; rfl, ?_⟩
  rw [AveragerConfig.count]
  have hput := hplayed.put (x := m₁.get ⟨0, 13⟩ + 1) hmap
    ⟨by decide, by decide, by decide⟩ hfree
  split
  · exact hput.withMemory _
  · exact hput

/-- A loop counts its repetitions in a register of its own. -/
theorem load (h : a.Played map mode j k m) (hmap : map.Sound)
    (hfree : map.Unlatched a.channel ⟨0, 15⟩) :
    a.Played map mode j k ((a.config e).repsSweep.load i m) :=
  h.put (r := ⟨0, 15⟩) hmap ⟨by decide, by decide, by decide⟩ hfree

/-- **All shots of one gain.** -/
theorem repeatShots (h : a.Played map mode j (j * a.reps.toNat) m) (hmap : map.Sound)
    (hshots : map.Unlatched a.channel ⟨0, 13⟩) (hreps : map.Unlatched a.channel ⟨0, 15⟩)
    (hcode : Updates map a.channel code) :
    ∃ m', (a.config e).repeatShots code m = some m' ∧
      a.Played map mode j ((j + 1) * a.reps.toNat) m' := by
  obtain ⟨m', hrepeats, hplayed⟩ := Sweep.exists_repeats (a.config e).repsSweep
    ((a.config e).shoot code) (fun i => a.Played map mode j (j * a.reps.toNat + i)) h
    fun i hi x hx => (hx.load hmap hreps).shoot hi hmap hshots hcode
  refine ⟨_, hrepeats, ?_⟩
  rw [Nat.succ_mul]
  exact hplayed.load hmap hreps

theorem toNat_value_sweptGain (hmap : map.Sound) (r : Register) (j : Nat) :
    (((a.sweptGain map r).value j).toNat : Int) =
      (a.gainStart + j * a.gainStep) % (1 <<< map.width .gain : Nat) := by
  have hpos := hmap.width_pos .gain
  have hle := hmap.width_le .gain
  have hwidth : min (a.sweptGain map r).width 32 = map.width .gain := by
    simp only [sweptGain, SweptRegister.withWidth, registerWidth]
    omega
  rw [SweptRegister.toNat_value, hwidth]
  rfl

/-- **A gain that is loaded is the one that is played next.** -/
theorem loadGain (h : a.Played map mode j k m) (hmap : map.Sound)
    (hgain : map.register a.channel .gain = .ok r)
    (hcounter : (⟨r.page, gainCounter⟩ : Register).Valid)
    (hfree : map.Unlatched a.channel ⟨r.page, gainCounter⟩) (j' : Nat) :
    a.Played map mode j' k ((a.gainSweep map r).load j' m) := by
  obtain ⟨v, hv, hcurrent, hlatched⟩ := h
  refine put ⟨_, hv.write hmap hgain (x := (a.sweptGain map r).value j'), ?_, hlatched⟩ hmap
    hcounter hfree
  rw [ChannelView.current_write_gain, hcurrent, toNat_value_sweptGain hmap]
  rfl

/-- **All shots of all gains.** -/
theorem shootAll (h : a.Played map mode 0 0 m) (hmap : map.Sound) (hclear : a.Undisturbed map)
    (hpage : map.page a.channel = .ok page) (hsweep : a.sweep? map = .ok e)
    (hcode : Updates map a.channel code) :
    ∃ m' j, (a.config e).shootAll code m = some m' ∧
      a.Played map mode j (a.reps.toNat * max a.points.toNat 1) m' := by
  have hreps : map.Unlatched a.channel ⟨0, 15⟩ := hclear.unlatched hpage (by simp [counters])
  rcases sweep?_eq_ok hsweep with ⟨hone, rfl⟩ | ⟨hone, gain, hgain, rfl⟩
  · have hmax : max a.points.toNat 1 = 1 := by
      rw [UInt32.le_iff_toNat_le] at hone
      exact Nat.max_eq_right hone
    obtain ⟨m', hrepeats, hplayed⟩ := repeatShots (e := none) (j := 0)
      (by rwa [Nat.zero_mul]) hmap hclear.shots hreps hcode
    rw [Nat.zero_add, Nat.one_mul] at hplayed
    rw [hmax, Nat.mul_one]
    exact ⟨m', 0, hrepeats, hplayed⟩
  · have hmax : max a.points.toNat 1 = a.points.toNat := by
      rw [UInt32.le_iff_toNat_le] at hone
      exact Nat.max_eq_left (Nat.le_of_not_le hone)
    have hcounter : (⟨gain.page, gainCounter⟩ : Register).Valid :=
      ⟨(hmap.valid hgain).page_lt, show gainCounter.toNat < 32 by decide,
        show gainCounter ≠ 0 by decide⟩
    have hfree := hclear.unlatched (ChannelMap.page_eq hgain)
      (r := ⟨gain.page, gainCounter⟩) (by simp [counters, hone])
    obtain ⟨m', hrepeats, j, hplayed⟩ := Sweep.exists_repeats (a.gainSweep map gain)
      ((a.config (some (a.gainSweep map gain))).repeatShots code)
      (fun j x => ∃ j', a.Played map mode j' (j * a.reps.toNat) x)
      ⟨0, by rwa [Nat.zero_mul]⟩ fun j _ x ⟨j', hx⟩ => by
        obtain ⟨x', hx', hplayed⟩ := repeatShots (e := some (a.gainSweep map gain))
          (hx.loadGain hmap hgain hcounter hfree j) hmap hclear.shots hreps hcode
        exact ⟨x', hx', j, hplayed⟩
    rw [hmax, Nat.mul_comm]
    exact ⟨_, _, hrepeats, hplayed.loadGain hmap hgain hcounter hfree _⟩

end Played

/-! ### The whole experiment -/

/-- **What is set up is what the first pulse will be.** -/
theorem exists_setup (hq : q.encode = .ok ws) (hmap : map.Sound)
    (hsetup : ({} : Sequencer).setup map a.pulse = .ok s) (hext : s.program.Extends q) :
    ∃ mode f, a.pulse.mode .dds a.length.toNat = .ok mode ∧
      Program.Realises [] {} s.program f ∧ a.Played map mode 0 0 (f {}) := by
  obtain ⟨p, hp, hsetup⟩ := bind_eq_ok_iff.1 hsetup
  obtain rfl := Except.ok.inj hsetup
  obtain ⟨mode, hmode, ⟨f, hf, hshift⟩, ⟨hnonneg, hlt⟩, hcurrent⟩ :=
    ChannelView.Shifts.of_emitSetup hq hmap rfl hp hext
  refine ⟨mode, f, hmode, hf, _, hshift {} {} ⟨rfl, ?_, rfl⟩, ?_, rfl⟩
  · intro name r hname hr
    exact Vector.getElem_replicate _
  · rw [hcurrent]
    have hgain : (a.gainStart + (0 : Nat) * a.gainStep) % (1 <<< map.width .gain : Nat) =
        a.gainStart := by
      rw [Int.natCast_zero, Int.zero_mul, Int.add_zero]
      exact Int.emod_eq_of_lt hnonneg hlt
    rw [asked, hgain]
    rfl

theorem exists_page (hsetup : ({} : Sequencer).setup map a.pulse = .ok s) :
    ∃ page, map.page a.channel = .ok page := by
  obtain ⟨p, hp, -⟩ := bind_eq_ok_iff.1 hsetup
  obtain ⟨freq, hfreq, -⟩ := bind_eq_ok_iff.1 hp
  obtain ⟨r, hr, -⟩ := bind_eq_ok_iff.1 hfreq
  exact ⟨r.page, ChannelMap.page_eq hr⟩

theorem narrow_swept (hsweep : a.sweep? map = .ok e) (hstep : Isa.Narrow a.gainStep) :
    ∀ r ∈ (a.config e).swept, Isa.Narrow r.step := by
  rcases sweep?_eq_ok hsweep with ⟨-, rfl⟩ | ⟨-, gain, -, rfl⟩
  · simp [AveragerConfig.swept, config]
  · intro r hr
    obtain rfl : r = a.sweptGain map gain := List.mem_singleton.1 hr
    exact hstep

/-- **An acquisition plays the pulse that it is asked for.**  If the program can be written and
encoded, the step fits an immediate, and the registers of the pulse are its own, then under every
limit that leaves enough steps the emulator comes to the end.  It has then updated the channel once
for each repetition of each gain, every time with the frequency and the mode word of the pulse,
phase and address 0, and the gain that is due. -/
theorem plays_the_pulse {registers : RegisterMap} {built : AveragerProgram}
    (hmap : ChannelMap.ofRegisterMap registers = .ok map) (hbuilt : a.build map = .ok built)
    (hws : built.program.encode = .ok ws) (hstep : Isa.Narrow a.gainStep)
    (hclear : a.Undisturbed map) :
    ∃ mode m n, a.pulse.mode .dds a.length.toNat = .ok mode ∧ m.halted = true ∧
      (∀ limit ≥ n, (Emulator.ofWords ws limit).run =
        (.ok (), { Emulator.ofWords ws limit with machine := m, steps := n })) ∧
      m.latched a.channel = (List.range (a.reps.toNat * max a.points.toNat 1)).map fun k =>
        { freq := a.freq, phase := 0, addr := 0, mode
          gain := (a.gainStart + (k / a.reps.toNat : Nat) * a.gainStep) %
            (1 <<< map.width .gain : Nat) } := by
  have hsound := ChannelMap.sound_of_ofRegisterMap hmap
  obtain ⟨e, hsweep, hbuilt⟩ := build_eq_ok hbuilt
  obtain ⟨s, inner, s', hs, hfront, hs', rfl⟩ := AveragerConfig.write_eq_ok hbuilt
  obtain ⟨page, hpage⟩ := exists_page hs
  -- The code of a shot is one update.
  have hext' := (a.config e).extends_end s'.program
  obtain ⟨f', ⟨code, hemits, hspares, hcode⟩, hshift'⟩ := shifts_shot hws hsound hs' hext'
    (fun r hr => hclear.time_not_mem hsound hsweep hr) hclear.triggers
    (hclear.trigger_not_mem hsweep hpage)
  have hupdates : Updates map a.channel code := fun v m hv =>
    ⟨f' m, (hcode m hv.running).1, hshift' v m hv⟩
  -- In front of it the registers are set up.
  have hext := ((AveragerConfig.extends_front hfront).trans hemits.toExtends).trans hext'
  obtain ⟨mode, f, hmode, ⟨setup, hemits₀, hspares₀, hsetup⟩, hplayed⟩ :=
    exists_setup hws hsound hs hext
  obtain ⟨m, j, hshoot, v, hv, -, hlatched⟩ := (hplayed.put (x := 0) hsound
    ⟨by decide, by decide, by decide⟩ hclear.shots).shootAll hsound hclear hpage hsweep hupdates
  have hexec : (a.config e).exec setup code = some m :=
    Option.bind_eq_some_iff.2 ⟨f {}, (hsetup {} rfl).1, hshoot⟩
  obtain ⟨n, hrun⟩ := AveragerConfig.exists_run_of_exec hfront hemits₀ hemits hws
    (fun i hi => (hspares₀ i hi).straight) hspares (show (1 : UInt32).toNat < 1024 by decide)
    (narrow_swept hsweep hstep) hexec
  exact ⟨mode, _, n, hmode, rfl, hrun, hv.latched.trans hlatched⟩

/-- Two shots at each of two gains, the second of which is too large for 16 bits. -/
def twoGains : Acquisition :=
  { reps := 2, points := 2, gainStart := 40000, gainStep := 30000, length := 100 }

theorem plays_the_pulse_twoGains : ∃ map built ws mode m n,
    ChannelMap.ofRegisterMap RegisterMap.standard = .ok map ∧ twoGains.build map = .ok built ∧
    built.program.encode = .ok ws ∧ Isa.Narrow twoGains.gainStep ∧ twoGains.Undisturbed map ∧
    twoGains.pulse.mode .dds twoGains.length.toNat = .ok mode ∧ m.halted = true ∧
    (∀ limit ≥ n, (Emulator.ofWords ws limit).run =
      (.ok (), { Emulator.ofWords ws limit with machine := m, steps := n })) ∧
    m.latched 7 = [⟨100000, 0, 0, 40000, mode⟩, ⟨100000, 0, 0, 40000, mode⟩,
      ⟨100000, 0, 0, 4464, mode⟩, ⟨100000, 0, 0, 4464, mode⟩] := by
  obtain ⟨map, hmap, -⟩ : ∃ map, ChannelMap.ofRegisterMap RegisterMap.standard = .ok map ∧ True :=
    exists_ok (by decide +kernel)
  have hclear : twoGains.Undisturbed map := by
    rw [ChannelMap.eq_of_ofRegisterMap hmap]
    decide +kernel
  obtain ⟨built, hbuilt, hencode⟩ : ∃ built, twoGains.build map = .ok built ∧
      ∃ ws ∈ built.program.encode.toOption, True := by
    rw [ChannelMap.eq_of_ofRegisterMap hmap]
    exact exists_ok (by decide +kernel)
  obtain ⟨ws, hws, -⟩ := exists_ok hencode
  obtain ⟨mode, m, n, hmode, hhalted, hrun, hlatched⟩ :=
    plays_the_pulse hmap hbuilt hws (by decide) hclear
  have hwidth : map.width .gain = 16 := by
    rw [ChannelMap.eq_of_ofRegisterMap hmap]
    decide
  rw [hwidth] at hlatched
  exact ⟨map, built, ws, mode, m, n, hmap, hbuilt, hws, by decide, hclear, hmode, hhalted, hrun,
    hlatched⟩

/-- A map that has the start times of a channel where repetitions are counted. -/
def aliasedMap : RegisterMap where
  channels := [{ channel := 7, page := 0, registers := RegisterMap.ofEntries [(.freq, 16),
    (.phase, 17), (.addr, 18), (.gain, 19), (.mode, 20), (.time, 15), (.adcFreq, 22)] }]
  widths := fun _ => none

/-- The standard readout, four times. -/
def fourShots : Acquisition := { reps := 4 }

/-- **With a map that is accepted the pulse need not be played as often as asked for.**  The start
time, which is zero, is written over the repetitions that are left, and the first one is the
last. -/
theorem aliased_pulse_not_played : ∃ map built ws m n,
    ChannelMap.ofRegisterMap aliasedMap = .ok map ∧ fourShots.build map = .ok built ∧
    built.program.encode = .ok ws ∧ Isa.Narrow fourShots.gainStep ∧
    (∀ limit ≥ n, (Emulator.ofWords ws limit).run =
      (.ok (), { Emulator.ofWords ws limit with machine := m, steps := n })) ∧
    m.latched 7 = [⟨100000, 0, 0, 1000, 590224⟩] ∧
    fourShots.reps.toNat * max fourShots.points.toNat 1 = 4 := by
  obtain ⟨map, hmap, -⟩ : ∃ map, ChannelMap.ofRegisterMap aliasedMap = .ok map ∧ True :=
    exists_ok (by decide +kernel)
  obtain ⟨built, hbuilt, hencode⟩ : ∃ built, fourShots.build map = .ok built ∧
      ∃ ws ∈ built.program.encode.toOption, ∃ m ∈ Machine.after? ws.toArray 17 {},
        m.halted = true ∧ m.latched 7 = [⟨100000, 0, 0, 1000, 590224⟩] := by
    rw [ChannelMap.eq_of_ofRegisterMap hmap]
    exact exists_ok (by decide +kernel)
  obtain ⟨ws, hws, m, hm, hhalted, hlatched⟩ := exists_ok hencode
  obtain ⟨ms, hms, hlength⟩ := Machine.executes_of_after? hm
  refine ⟨map, built, ws, m, 17, hmap, hbuilt, hws, by decide, fun limit hlimit => ?_, hlatched,
    rfl⟩
  obtain ⟨hresult, -⟩ := Emulator.run_of_executes (e := Emulator.ofWords ws limit) hms hhalted
    (by simpa [Emulator.ofWords, hlength] using hlimit)
  simpa [Emulator.ofWords, hlength] using hresult

end Acquisition
end PulseProcessor
