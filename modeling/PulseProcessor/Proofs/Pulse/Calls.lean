import Mathlib.Algebra.Ring.Int.Defs
import PulseProcessor.Proofs.Pulse.Playing

/-! # Sequences of calls

A sequencer and a timeline agree on when the channels become free (`Timeline.Tracks`).  Each call
that succeeds keeps them in agreement, and its code carries the timeline to the one that the call
leads to (`Timeline.Playable.perform`).  So the code of a whole sequence of calls plays the timeline
of the sequence (`Timeline.performAll_plays`).
-/

namespace PulseProcessor

/-- All calls, up to the first that fails. -/
def Sequencer.performAll (map : ChannelMap) (s : Sequencer) (calls : List Sequencer.Call) :
    Except AssemblyError Sequencer :=
  calls.foldlM (fun s call => (s.perform map call).map (·.1)) s

namespace Sequencer

variable {s : Sequencer}

/-! ### The end of all pulses -/

/-- A channel without a timestamp is free at 0. -/
theorem timestamp_eq_zero_or_mem (s : Sequencer) (ch : UInt8) :
    s.timestamp ch = 0 ∨ ∃ x ∈ s.timestamps, s.timestamp ch = x.2 := by
  unfold timestamp
  cases hfind : s.timestamps.find? (·.1 == ch) with
  | none => exact .inl rfl
  | some x => exact .inr ⟨x, List.mem_of_find?_eq_some hfind, rfl⟩

/-- The end of the last pulse of all, or the sync point. -/
def lastEnd (s : Sequencer) : Int := ((s.timestamps.map (·.2)).max?).getD 0

theorem lastEnd_spec (h : ∀ x ∈ s.timestamps, 0 ≤ x.2) : 0 ≤ s.lastEnd ∧
    (∀ x ∈ s.timestamps, x.2 ≤ s.lastEnd) ∧
      (s.lastEnd = 0 ∨ ∃ x ∈ s.timestamps, s.lastEnd = x.2) := by
  unfold lastEnd
  cases hmax : (s.timestamps.map (·.2)).max? with
  | none =>
    rw [List.max?_eq_none_iff, List.map_eq_nil_iff] at hmax
    exact ⟨Int.le_refl 0, by simp [hmax], .inl rfl⟩
  | some last =>
    obtain ⟨hmem, hupper⟩ := List.max?_eq_some_iff.1 hmax
    obtain ⟨y, hy, rfl⟩ := List.mem_map.1 hmem
    exact ⟨h y hy, fun x hx => hupper x.2 (List.mem_map_of_mem hx), .inr ⟨y, hy, rfl⟩⟩

theorem timestamp_le_lastEnd (h : ∀ x ∈ s.timestamps, 0 ≤ x.2) (ch : UInt8) :
    s.timestamp ch ≤ s.lastEnd := by
  obtain ⟨hnonneg, hupper, -⟩ := lastEnd_spec h
  rcases s.timestamp_eq_zero_or_mem ch with hzero | ⟨x, hx, heq⟩
  · rw [hzero]
    exact hnonneg
  · rw [heq]
    exact hupper x hx

theorem syncAll_eq (s : Sequencer) (extra : Int) : s.syncAll extra =
    if s.lastEnd + extra > 0 then
      { program := s.program.append (.synci (s.lastEnd + extra)), timestamps := [] }
    else s := by
  unfold syncAll lastEnd
  cases (s.timestamps.map (·.2)).max? <;> rfl

/-! ### Sums of 64 bits

A time has 64 bits, and `syncAll` adds its argument to one.  The sums of a sequencer are exact, so
what is shown of programs with 64-bit times is shown of calls whose sums have 64 bits.  All other
sums are bounded by the widths of the registers and immediates into which they go. -/

/-- The sums that `syncAll` forms in calls, up to the first that fails. -/
def syncSums (map : ChannelMap) (s : Sequencer) : List Call → List Int
  | [] => []
  | call :: calls =>
    let sums := match call with
      | .syncAll extra => [s.lastEnd + extra]
      | _ => []
    match s.perform map call with
    | .ok (s', _) => sums ++ s'.syncSums map calls
    | .error _ => sums

/-- The sums that move sync points are numbers of 64 bits with sign. -/
def SumsFit (map : ChannelMap) (s : Sequencer) (calls : List Call) : Prop :=
  ∀ sum ∈ s.syncSums map calls, -9223372036854775808 ≤ sum ∧ sum < 9223372036854775808

instance (map : ChannelMap) (s : Sequencer) (calls : List Call) : Decidable (s.SumsFit map calls) :=
  inferInstanceAs (Decidable (∀ sum ∈ _, _ ∧ _))

end Sequencer

namespace Timeline

open Machine (Passage)

/-! ### When channels become free -/

/-- **A sequencer and a timeline agree** on when each channel becomes free. -/
structure Tracks (tl : Timeline) (s : Sequencer) : Prop where
  free : ∀ ch, s.timestamp ch = tl.free ch
  nodup : (s.timestamps.map (·.1)).Nodup
  nonneg : ∀ x ∈ s.timestamps, 0 ≤ x.2

variable {map : ChannelMap} {q p p' : Program} {ws : List Word} {tl : Timeline}
  {s s' : Sequencer} {pulse : Pulse} {ch : UInt8} {t : Int}

theorem timestamp_setTimestamp (s : Sequencer) (ch ch' : UInt8) (t : Int) :
    (s.setTimestamp ch t).timestamp ch' = if ch' = ch then t else s.timestamp ch' := by
  by_cases hsame : ch' = ch
  · simp [Sequencer.timestamp, Sequencer.setTimestamp, hsame]
  · rw [if_neg hsame, Sequencer.timestamp, Sequencer.setTimestamp, List.find?_cons_of_neg
      (by simpa using Ne.symm hsame), List.find?_filter, Sequencer.timestamp]
    refine congrArg (fun entry => (Option.map (·.2) entry).getD 0)
      (congrArg (List.find? · s.timestamps) (funext fun x => ?_))
    by_cases hx : x.1 = ch'
    · simp [hx, hsame]
    · simp [hx]

theorem timestamp_of_mem (hnodup : (s.timestamps.map (·.1)).Nodup) {x : UInt8 × Int}
    (hx : x ∈ s.timestamps) : s.timestamp x.1 = x.2 := by
  unfold Sequencer.timestamp
  cases hfind : s.timestamps.find? (·.1 == x.1) with
  | none =>
    have := List.find?_eq_none.1 hfind x hx
    simp at this
  | some y =>
    have hy : y.1 = x.1 := by simpa using List.find?_some hfind
    rw [List.inj_on_of_nodup_map hnodup (List.mem_of_find?_eq_some hfind) hx hy]
    rfl

namespace Tracks

theorem nil (h : ∀ ch, tl.free ch = 0) (p : Program) : tl.Tracks ⟨p, []⟩ :=
  ⟨fun ch => (h ch).symm, .nil, by simp⟩

/-- Timestamps say nothing of programs, nor of parameters and updates. -/
theorem congr {tl' : Timeline} (h : tl.Tracks s) (hfree : tl'.free = tl.free)
    (htimestamps : s'.timestamps = s.timestamps) : tl'.Tracks s' where
  free ch := by rw [hfree, ← h.free, Sequencer.timestamp, htimestamps, Sequencer.timestamp]
  nodup := htimestamps ▸ h.nodup
  nonneg := htimestamps ▸ h.nonneg

/-- A pulse starts at the same time in both. -/
theorem startTime_eq (h : tl.Tracks s) (ch : UInt8) (start : Start) :
    s.startTime ch start = tl.startTime ch start := by
  cases start with
  | auto => exact h.free ch
  | «at» t => rfl

/-- A pulse occupies its channel in both. -/
theorem occupy (h : tl.Tracks s) (ht : 0 ≤ t) : (tl.occupy ch t).Tracks (s.setTimestamp ch t) where
  free ch' := by
    rw [timestamp_setTimestamp, h.free]
    rfl
  nodup := by
    refine List.nodup_cons.2 ⟨fun hmem => ?_, h.nodup.sublist (List.filter_sublist.map _)⟩
    obtain ⟨x, hx, heq⟩ := List.mem_map.1 hmem
    have := (List.mem_filter.1 hx).2
    simp [heq] at this
  nonneg := by
    rintro x (_ | ⟨_, hx⟩)
    · exact ht
    · exact h.nonneg x (List.mem_filter.1 hx).1

/-- **Both see the same end of all pulses.** -/
theorem last_eq (h : tl.Tracks s) : s.lastEnd = tl.last := by
  obtain ⟨hzero, hbound, hattained⟩ := tl.last_spec
  obtain ⟨hzero', -, hattained'⟩ := Sequencer.lastEnd_spec h.nonneg
  refine Int.le_antisymm ?_ ?_
  · rcases hattained' with hnone | ⟨x, hx, heq⟩
    · rw [hnone]
      exact hzero
    · rw [heq, ← timestamp_of_mem h.nodup hx, h.free]
      exact hbound x.1
  · rcases hattained with hnone | ⟨ch, hch⟩
    · rw [hnone]
      exact hzero'
    · rw [hch, ← h.free]
      exact Sequencer.timestamp_le_lastEnd h.nonneg ch

theorem syncAll_eq (h : tl.Tracks s) (extra : Int) : s.syncAll extra =
    if 0 < tl.last + extra then
      { program := s.program.append (.synci (tl.last + extra)), timestamps := [] }
    else s := by
  rw [Sequencer.syncAll_eq, h.last_eq]

end Tracks

@[simp] theorem free_write (tl : Timeline) (ch : UInt8) (name : PulseRegister) (v : UInt32) :
    (tl.write ch name v).free = tl.free := rfl

@[simp] theorem free_set (tl : Timeline) (ch : UInt8) (t : Int) : (tl.set ch t).free = tl.free :=
  rfl

@[simp] theorem free_segment (tl : Timeline) (pulse : Pulse) (addr : Int) (length : Nat)
    (output : OutputSelect) : (tl.segment pulse addr length output).free = tl.free := rfl

theorem free_setup (tl : Timeline) (pulse : Pulse) : (tl.setup pulse).free = tl.free := by
  unfold setup
  cases pulse.style <;> simp only [free_write, free_segment]

theorem free_latch (tl : Timeline) (pulse : Pulse) (t : Int) :
    (tl.latch pulse t).free = tl.free := by
  unfold latch
  cases pulse.style <;> simp only [free_set, free_segment]

/-! ### Sync points -/

namespace Playable

/-- One step of the time offset. -/
theorem synci (h : Playable map q ws) {comment : Option String}
    (hext : (p.append (.synci t) comment).Extends q) (tl : Timeline) :
    Carries map ws p tl (p.append (.synci t) comment) { tl with offset := tl.offset + t } := by
  intro m hm
  have hat := (Program.at_append ..).extends hext
  have hnext := hat.next?_synci h.encode hm.running
  rw [(h.narrow _ _ hat t rfl).bmod] at hnext
  rw [Program.size_append]
  refine ⟨_, _, .single hnext, hm.running, ?_, hm.events, hm.params, hm.zero⟩
  rw [Machine.wait, hm.offset]

/-- Steps of the time offset add up. -/
theorem steps (h : Playable map q ws) {steps : List Int}
    (hext : (steps.foldl (fun p t => p.append (.synci t)) p).Extends q) (tl : Timeline) :
    Carries map ws p tl (steps.foldl (fun p t => p.append (.synci t)) p)
      { tl with offset := tl.offset + steps.sum } := by
  induction steps generalizing p tl with
  | nil =>
    rw [List.sum_nil, Int.add_zero]
    exact carries_refl map ws p tl
  | cons t steps ih =>
    have hfirst := (Program.Grows.of_foldl (fun p t => .of_append p (.synci t) none)
      (p.append (.synci t)) steps).extends
    have hrest := ih hext { tl with offset := tl.offset + t }
    rw [Int.add_assoc] at hrest
    exact (h.synci (hfirst.trans hext) tl).trans hrest

end Playable

/-- A wait is split without losing a cycle. -/
theorem sum_delaySteps (cycles : Int) : (Sequencer.delaySteps cycles).sum = max cycles 0 := by
  unfold Sequencer.delaySteps
  by_cases hnone : cycles ≤ 0
  · rw [if_pos hnone, Int.max_eq_right hnone]
    rfl
  · rw [if_neg hnone, Int.max_eq_left (by omega)]
    have hfull : 0 ≤ (cycles - 1) / maxSync := Int.ediv_nonneg (by omega) (by decide)
    dsimp only
    rw [List.sum_append, List.sum_replicate_int, List.sum_singleton, Int.toNat_of_nonneg hfull]
    omega

/-! ### Calls -/

namespace Playable

theorem duration_nonneg (pulse : Pulse) : 0 ≤ pulse.duration := by
  unfold Pulse.duration
  split <;> omega

theorem of_setup (h : Playable map q ws) (hs : tl.Tracks s) (hsetup : s.setup map pulse = .ok s')
    (hext : s'.program.Extends q) :
    Carries map ws s.program tl s'.program (tl.setup pulse) ∧ (tl.setup pulse).Tracks s' := by
  obtain ⟨p, hp, hsetup⟩ := bind_eq_ok_iff.1 hsetup
  obtain rfl := Except.ok.inj hsetup
  exact ⟨h.emitSetup hp hext tl, hs.congr (tl.free_setup pulse) rfl⟩

theorem of_play (h : Playable map q ws) (hs : tl.Tracks s) {start : Start}
    (hplay : s.play map pulse start = .ok (s', t)) (hext : s'.program.Extends q) :
    let t' := tl.startTime pulse.channel start
    Carries map ws s.program tl s'.program (tl.play pulse t') ∧ (tl.play pulse t').Tracks s' := by
  obtain ⟨p, hp, hplay⟩ := bind_eq_ok_iff.1 hplay
  cases hplay
  rw [hs.startTime_eq] at hp ⊢
  have hcarries := h.emitPlay hp hext tl
  have hnonneg := nonneg_of_emitPlay hp
  have hduration := duration_nonneg pulse
  refine ⟨fun m hm => ?_, ?_⟩
  · obtain ⟨m', ms, hms, hm'⟩ := hcarries m hm
    exact ⟨m', ms, hms, hm'.running, hm'.offset, hm'.events, hm'.params, hm'.zero⟩
  · have hfree : (tl.latch pulse (tl.startTime pulse.channel start)).Tracks
        { s with program := p } := hs.congr (tl.free_latch pulse _) rfl
    exact hfree.occupy (by omega)

theorem of_trigger (h : Playable map q ws) (hs : tl.Tracks s) {readouts markers : List UInt8}
    {width : Int} (htrigger : s.trigger readouts markers t width = .ok s')
    (hext : s'.program.Extends q) :
    Carries map ws s.program tl s'.program (tl.trigger readouts markers t width) ∧
      (tl.trigger readouts markers t width).Tracks s' := by
  obtain ⟨p, hp, htrigger⟩ := bind_eq_ok_iff.1 htrigger
  obtain rfl := Except.ok.inj htrigger
  exact ⟨h.emitTrigger hp hext tl, hs.congr rfl rfl⟩

theorem of_pulse (h : Playable map q ws) (hs : tl.Tracks s) {start : Start}
    (hpulse : s.pulse map pulse start = .ok (s', t)) (hext : s'.program.Extends q) :
    let tl' := (tl.setup pulse).play pulse (tl.startTime pulse.channel start)
    Carries map ws s.program tl s'.program tl' ∧ tl'.Tracks s' := by
  obtain ⟨s₁, hsetup, hplay⟩ := bind_eq_ok_iff.1 hpulse
  obtain ⟨hcarries, hs₁⟩ :=
    h.of_setup hs hsetup ((Sequencer.writes_play hplay).extends.trans hext)
  obtain ⟨hcarries', hs'⟩ := h.of_play hs₁ hplay hext
  have hstart : (tl.setup pulse).startTime pulse.channel start =
      tl.startTime pulse.channel start := by
    cases start with
    | auto => exact congrFun (tl.free_setup pulse) _
    | «at» t => rfl
  rw [hstart] at hcarries' hs'
  exact ⟨hcarries.trans hcarries', hs'⟩

theorem of_syncAll (h : Playable map q ws) (hs : tl.Tracks s) (extra : Int)
    (hext : (s.syncAll extra).program.Extends q) :
    Carries map ws s.program tl (s.syncAll extra).program (tl.sync extra) ∧
      (tl.sync extra).Tracks (s.syncAll extra) := by
  rw [hs.syncAll_eq] at hext ⊢
  unfold sync
  by_cases hpos : 0 < tl.last + extra
  · rw [if_pos hpos] at hext ⊢
    rw [if_pos hpos]
    refine ⟨fun m hm => ?_, .nil (fun _ => rfl) _⟩
    obtain ⟨m', ms, hms, hm'⟩ := h.synci hext tl m hm
    exact ⟨m', ms, hms, hm'.running, hm'.offset, hm'.events, hm'.params, hm'.zero⟩
  · rw [if_neg hpos] at hext ⊢
    rw [if_neg hpos]
    exact ⟨carries_refl map ws s.program tl, hs⟩

theorem of_delay (h : Playable map q ws) (hs : tl.Tracks s) (cycles : Int)
    (hext : (s.delay cycles).program.Extends q) :
    Carries map ws s.program tl (s.delay cycles).program ((tl.sync 0).wait cycles) ∧
      ((tl.sync 0).wait cycles).Tracks (s.delay cycles) := by
  have hsteps : (s.syncAll 0).program.Extends (s.delay cycles).program :=
    (Program.Grows.of_foldl (fun p t => .of_append p (.synci t) none) _ _).extends
  obtain ⟨hcarries, hs'⟩ := h.of_syncAll hs 0 (hsteps.trans hext)
  have hwait := h.steps hext (tl.sync 0)
  rw [sum_delaySteps] at hwait
  exact ⟨hcarries.trans hwait, hs'.congr rfl rfl⟩

theorem of_measure (h : Playable map q ws) (hs : tl.Tracks s) {readouts : List UInt8}
    {offset : Int} {start : Start}
    (hmeasure : s.measure map pulse readouts offset start = .ok (s', t))
    (hext : s'.program.Extends q) :
    let tl' := tl.perform (.measure pulse readouts offset start)
    Carries map ws s.program tl s'.program tl' ∧ tl'.Tracks s' := by
  obtain ⟨s₁, htrigger, hpulse⟩ := bind_eq_ok_iff.1 hmeasure
  rw [hs.startTime_eq] at htrigger hpulse
  obtain ⟨hcarries, hs₁⟩ :=
    h.of_trigger hs htrigger ((Sequencer.writes_pulse hpulse).extends.trans hext)
  obtain ⟨hcarries', hs'⟩ := h.of_pulse hs₁ hpulse hext
  exact ⟨hcarries.trans hcarries', hs'⟩

/-- **Each call plays what it asks for.** -/
theorem perform (h : Playable map q ws) (hs : tl.Tracks s) {call : Sequencer.Call}
    {result : Sequencer × Option Int} (hperform : s.perform map call = .ok result)
    (hext : result.1.program.Extends q) :
    Carries map ws s.program tl result.1.program (tl.perform call) ∧
      (tl.perform call).Tracks result.1 := by
  cases call with
  | setup pulse =>
    obtain ⟨s₁, hs₁, hperform⟩ := bind_eq_ok_iff.1 hperform
    cases hperform
    exact h.of_setup hs hs₁ hext
  | play pulse start =>
    obtain ⟨⟨s₁, t⟩, hs₁, rfl⟩ := map_eq_ok_iff.1 hperform
    exact h.of_play hs hs₁ hext
  | pulse pulse start =>
    obtain ⟨⟨s₁, t⟩, hs₁, rfl⟩ := map_eq_ok_iff.1 hperform
    exact h.of_pulse hs hs₁ hext
  | measure pulse readouts offset start =>
    obtain ⟨⟨s₁, t⟩, hs₁, rfl⟩ := map_eq_ok_iff.1 hperform
    exact h.of_measure hs hs₁ hext
  | trigger readouts markers t width =>
    obtain ⟨s₁, hs₁, hperform⟩ := bind_eq_ok_iff.1 hperform
    cases hperform
    exact h.of_trigger hs hs₁ hext
  | syncAll extra =>
    cases hperform
    exact h.of_syncAll hs extra hext
  | delay cycles =>
    cases hperform
    exact h.of_delay hs cycles hext

end Playable

/-! ### Sequences -/

theorem writes_performAll {calls : List Sequencer.Call}
    (h : s.performAll map calls = .ok s') :
    Program.Writes Instruction.OfSequencer s.program s'.program := by
  induction calls generalizing s with
  | nil =>
    cases h
    exact .refl _
  | cons call calls ih =>
    obtain ⟨s₁, hs₁, h⟩ := bind_eq_ok_iff.1 h
    obtain ⟨result, hresult, rfl⟩ := map_eq_ok_iff.1 hs₁
    exact (Sequencer.writes_perform hresult).trans (ih h)

/-- **All calls play what they ask for.** -/
theorem Playable.performAll (h : Playable map q ws) {calls : List Sequencer.Call}
    (hs : tl.Tracks s) (hcalls : s.performAll map calls = .ok s') (hext : s'.program.Extends q) :
    Carries map ws s.program tl s'.program (calls.foldl Timeline.perform tl) := by
  induction calls generalizing s tl with
  | nil =>
    cases hcalls
    exact carries_refl map ws _ tl
  | cons call calls ih =>
    obtain ⟨s₁, hs₁, hcalls⟩ := bind_eq_ok_iff.1 hcalls
    obtain ⟨result, hresult, rfl⟩ := map_eq_ok_iff.1 hs₁
    obtain ⟨hcarries, hs₁⟩ := h.perform hs hresult ((writes_performAll hcalls).extends.trans hext)
    exact hcarries.trans (ih hs₁ hcalls)

/-- Before anything has happened, a new machine shows it. -/
theorem shownBy_new (map : ChannelMap) : ({} : Timeline).ShownBy map {} where
  running := rfl
  offset := rfl
  events := rfl
  params _ _ := by simp [Machine.get, Machine.read]
  zero := by simp [Machine.get, Machine.read]

/-- **The emitted code plays the scheduled timeline.**  For every map that has been accepted and
leaves the register of trigger patterns alone, and every sequence of calls that succeed with sums
of 64 bits and times that fit the immediates: if their program, with an end, can be encoded, then
under every limit that leaves enough steps the emulator comes to the end, and its events are those
of the timeline, in the order of the calls. -/
theorem performAll_plays {registers : RegisterMap} {calls : List Sequencer.Call}
    {comment : Option String} (hmap : ChannelMap.ofRegisterMap registers = .ok map)
    (hunshared : ∀ ch name, map.register ch name ≠ .ok triggerRegister)
    (hcalls : Sequencer.performAll map {} calls = .ok s)
    (_hsums : Sequencer.SumsFit map {} calls)
    (hnarrow : ∀ i ∈ s.program.instructions, ∀ t ∈ i.immediateTime?, Isa.Narrow t)
    (hws : (s.program.append .halt comment).encode = .ok ws) :
    ∃ n m, m.halted = true ∧ m.events.toList = (ofCalls calls).events ∧
      ∀ limit ≥ n, (Emulator.ofWords ws limit).run =
        (.ok (), { Emulator.ofWords ws limit with machine := m, steps := n }) := by
  have hext := Program.extends_append s.program .halt comment
  have hplayable : Playable map (s.program.append .halt comment) ws := by
    refine ⟨ChannelMap.sound_of_ofRegisterMap hmap, hunshared, hws, fun pc i hat => ?_⟩
    rcases Nat.lt_or_ge pc s.program.size with hlt | hge
    · exact hnarrow i (List.mem_of_getElem? (Program.at_iff.1 (hat.of_extends hext hlt)))
    · have hend : Program.AddsOnly (fun i => ∀ t ∈ i.immediateTime?, Isa.Narrow t) s.program
          (s.program.append .halt comment) := .of_append _ _ (by simp [Instruction.immediateTime?])
      exact hend.only pc i hge hat
  obtain ⟨m, ms, hms, hm⟩ :=
    hplayable.performAll (.nil (fun _ => rfl) {}) hcalls hext {} (shownBy_new map)
  have hend := (Program.at_append s.program .halt comment).next?_halt hws hm.running
  refine ⟨(ms ++ [m.goto s.program.size]).length,
    { m with pc := s.program.size + 1, halted := true }, rfl, hm.events, fun limit hlimit => ?_⟩
  obtain ⟨hresult, -⟩ := Emulator.run_of_executes (e := Emulator.ofWords ws limit)
    (hms.executes.trans (.single hend)) rfl (by simpa [Emulator.ofWords] using hlimit)
  simpa [Emulator.ofWords] using hresult

/-- A readout on one channel, a flat-top pulse on the other channel of its page, whose frequency
takes three instructions, and the first pulse once more after a wait in two steps. -/
def readoutAndDrive : List Sequencer.Call :=
  let readout : Pulse :=
    { channel := 1, name := "readout", style := .constant, freq := 100, phase := 0, gain := 3000,
      length := 50 }
  let drive : Pulse :=
    { channel := 2, name := "drive", style := .flatTop 9, freq := 3000000001, phase := 5, gain := 7,
      addr := 16, length := 20, periodic := true }
  [.measure readout [0, 1] 3 .auto, .pulse drive (.at 10), .delay 20000,
   .trigger [] [2] 4 6, .syncAll (-1000), .play readout .auto]

theorem performAll_plays_readoutAndDrive : ∃ map s ws,
    ChannelMap.ofRegisterMap RegisterMap.standard = .ok map ∧
    (∀ ch name, map.register ch name ≠ .ok triggerRegister) ∧
    Sequencer.performAll map {} readoutAndDrive = .ok s ∧
    Sequencer.SumsFit map {} readoutAndDrive ∧
    (∀ i ∈ s.program.instructions, ∀ t ∈ i.immediateTime?, Isa.Narrow t) ∧
    (s.program.append .halt).encode = .ok ws ∧
    (ofCalls readoutAndDrive).events =
      [.seti 0 3 49152, .seti 0 63 0, .set 1 0 100 0 0 3000 589874,
       .set 2 10 3000000001 5 16 7 786436, .set 2 14 3000000001 5 0 7 851988,
       .set 2 34 3000000001 5 20 7 786436, .seti 0 20054 4, .seti 0 20060 0,
       .set 1 20050 100 0 0 3000 589874] ∧
    ∃ n m, m.halted = true ∧ m.events.toList = (ofCalls readoutAndDrive).events ∧
      ∀ limit ≥ n, (Emulator.ofWords ws limit).run =
        (.ok (), { Emulator.ofWords ws limit with machine := m, steps := n }) := by
  obtain ⟨map, hmap, -⟩ : ∃ map, ChannelMap.ofRegisterMap RegisterMap.standard = .ok map ∧ True :=
    exists_ok (by decide +kernel)
  have hunshared : ∀ ch name, map.register ch name ≠ .ok triggerRegister := fun ch name h => by
    obtain ⟨e, he, hnumber, -⟩ := ChannelMap.register_eq_ok h
    rw [ChannelMap.eq_of_ofRegisterMap hmap] at he
    have hnone : ∀ e ∈ RegisterMap.standard.channels, ∀ name ∈ PulseRegister.all,
        e.registers name ≠ some triggerRegister.number := by decide +kernel
    exact hnone e (ChannelMap.entry_eq_ok he).1 name name.mem_all hnumber
  obtain ⟨s, hcalls, hsums, hnarrow, hencode⟩ : ∃ s,
      Sequencer.performAll map {} readoutAndDrive = .ok s ∧
        Sequencer.SumsFit map {} readoutAndDrive ∧
        (∀ i ∈ s.program.instructions, ∀ t ∈ i.immediateTime?, Isa.Narrow t) ∧
        ∃ ws ∈ (s.program.append .halt).encode.toOption, True := by
    rw [ChannelMap.eq_of_ofRegisterMap hmap]
    exact exists_ok (by decide +kernel)
  obtain ⟨ws, hws, -⟩ := exists_ok hencode
  exact ⟨map, s, ws, hmap, hunshared, hcalls, hsums, hnarrow, hws, by decide +kernel,
    performAll_plays hmap hunshared hcalls hsums hnarrow hws⟩

end Timeline
end PulseProcessor
