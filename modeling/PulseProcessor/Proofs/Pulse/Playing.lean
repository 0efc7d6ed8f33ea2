import PulseProcessor.Proofs.Assembly.Construction
import PulseProcessor.Proofs.Emulator.Code
import PulseProcessor.Proofs.Emulator.Constants
import PulseProcessor.Proofs.Pulse.Registers
import PulseProcessor.Proofs.Pulse.Timeline

/-! # The code of a sequencer plays its timeline

A machine shows a timeline (`Timeline.ShownBy`) if its time offset is the sync point, its events are
the timeline's, and each parameter's register holds what the timeline says was written last.  Start
times are left out: their registers are written anew for every pulse.  Code carries one timeline to
another (`Timeline.Carries`) if it takes every machine that shows the first to one that shows the
second.

Each piece of code that a sequencer emits carries a timeline to the one that the same call leads to.
What makes this hold for pulses of several channels is that no two parameters share a register
(`ChannelMap.Sound`), and for triggers that no parameter is in the register of their pattern.
-/

namespace PulseProcessor

open Machine (Passage)

/-- The time that an instruction carries as an immediate. -/
def Instruction.immediateTime? : Instruction → Option Int
  | .seti _ _ _ t => some t
  | .synci t => some t
  | _ => none

/-! ### Machines and timelines -/

namespace Timeline

/-- **A machine shows a timeline.** -/
structure ShownBy (tl : Timeline) (map : ChannelMap) (m : Machine) : Prop where
  running : m.halted = false
  offset : m.timeOffset = tl.offset
  events : m.events.toList = tl.events
  params : ∀ {ch name r}, name ≠ .time → map.register ch name = .ok r → m.get r = tl.params ch name
  /-- Lines are lowered with register 0. -/
  zero : m.get ⟨0, 0⟩ = 0

/-- **Code from the end of `p` to the end of `p'` carries a timeline to another one.** -/
def Carries (map : ChannelMap) (ws : List Word) (p : Program) (tl : Timeline) (p' : Program)
    (tl' : Timeline) : Prop :=
  ∀ m, tl.ShownBy map m → ∃ m' ms, Passage ws.toArray m p.size m' p'.size ms ∧ tl'.ShownBy map m'

/-- **A program that can be played**: its map is sound and leaves the register of trigger patterns
alone, it has been encoded, and the times in its immediates fit these. -/
structure Playable (map : ChannelMap) (q : Program) (ws : List Word) : Prop where
  sound : map.Sound
  unshared : ∀ ch name, map.register ch name ≠ .ok triggerRegister
  encode : q.encode = .ok ws
  narrow : ∀ pc i, q.At pc i → ∀ t ∈ i.immediateTime?, Isa.Narrow t

variable {map : ChannelMap} {q p p' p'' : Program} {ws : List Word} {tl tl' tl'' : Timeline}
  {m : Machine} {r : Register} {v : UInt32} {pulse : Pulse} {name : PulseRegister}

theorem carries_refl (map : ChannelMap) (ws : List Word) (p : Program) (tl : Timeline) :
    Carries map ws p tl p tl := fun m hm => ⟨m, [], .refl m _, hm⟩

theorem Carries.trans (h : Carries map ws p tl p' tl') (h' : Carries map ws p' tl' p'' tl'') :
    Carries map ws p tl p'' tl'' := by
  intro m hm
  obtain ⟨m', ms, hms, hm'⟩ := h m hm
  obtain ⟨m'', ms', hms', hm''⟩ := h' m' hm'
  exact ⟨m'', ms ++ ms', hms.trans hms', hm''⟩

/-- Register 0 cannot be written. -/
theorem get_zero_put (hr : r.Valid) : (m.put r v).get ⟨0, 0⟩ = m.get ⟨0, 0⟩ := by
  rw [Machine.get, Machine.put, Machine.read_write hr.page_lt hr.number_lt (by decide) (by decide),
    if_neg fun h => h.1 h.2.2]
  rfl

/-- Writing a register that holds no parameter, or a start time, does not show. -/
theorem ShownBy.put (h : tl.ShownBy map m) (hmap : map.Sound) (hr : r.Valid)
    (hfree : ∀ ch name, map.register ch name = .ok r → name = .time) :
    tl.ShownBy map (m.put r v) where
  running := by rw [Machine.put_halted, h.running]
  offset := by rw [Machine.put, Machine.write_timeOffset, h.offset]
  events := by rw [Machine.put, Machine.write_events, h.events]
  params {ch name' r'} hname hregister := by
    have hne : r ≠ r' := fun heq => hname (hfree ch name' (by rw [heq]; exact hregister))
    rw [Machine.get_put_of_ne hr (hmap.valid hregister) hne, h.params hname hregister]
  zero := by rw [get_zero_put hr, h.zero]

/-- A parameter is written into its register, and no other parameter is there. -/
theorem ShownBy.write (h : tl.ShownBy map m) (hmap : map.Sound) {ch : UInt8}
    (hregister : map.register ch name = .ok r) :
    (tl.write ch name v).ShownBy map (m.put r v) where
  running := by rw [Machine.put_halted, h.running]
  offset := by rw [Machine.put, Machine.write_timeOffset, h.offset]; rfl
  events := by rw [Machine.put, Machine.write_events, h.events]; rfl
  params {ch' name' r'} hname' hregister' := by
    rw [Machine.get_put (hmap.valid hregister) (hmap.valid hregister')]
    dsimp only [Timeline.write]
    by_cases hsame : r = r'
    · subst hsame
      obtain ⟨rfl, rfl⟩ := hmap.injective hregister hregister'
      rw [if_pos rfl, if_pos ⟨rfl, rfl⟩]
    · have hother : ¬ (ch' = ch ∧ name' = name) := by
        rintro ⟨rfl, rfl⟩
        rw [hregister, Except.ok.injEq] at hregister'
        exact hsame hregister'
      rw [if_neg hsame, if_neg hother, h.params hname' hregister']
  zero := by rw [get_zero_put (hmap.valid hregister), h.zero]

/-- An update is recorded. -/
theorem ShownBy.emit (h : tl.ShownBy map m) (e : Event) :
    { tl with events := tl.events ++ [e] : Timeline }.ShownBy map (m.emit e) where
  running := h.running
  offset := h.offset
  events := by rw [Machine.emit, Array.toList_push, h.events]
  params hname hregister := h.params hname hregister
  zero := h.zero

/-! ### Parameters -/

/-- What writing a parameter asks for, and what it adds to a program. -/
theorem writeRegister_eq_ok {t : Int}
    (h : Sequencer.writeRegister map pulse p name t = .ok p') :
    ∃ r comment, map.register pulse.channel name = .ok r ∧ 0 ≤ t ∧
      t < (1 <<< map.width name : Nat) ∧ p' = p.loadConstant r.page r.number t comment := by
  obtain ⟨r, hr, h⟩ := bind_eq_ok_iff.1 h
  dsimp only at h
  by_cases hbad : t < 0 ∨ t ≥ (1 <<< map.width name : Nat)
  · rw [if_pos hbad] at h
    contradiction
  · rw [if_neg hbad] at h
    rw [not_or] at hbad
    exact ⟨r, _, hr, by omega, by omega, (Except.ok.inj h).symm⟩

theorem ofInt_natCast (n : Nat) : UInt32.ofInt n = .ofNat n := by
  rw [eq_comm, ofInt_eq_iff, UInt32.toNat_ofNat']
  rfl

/-- A register that is named by its number alone is on the channel's page. -/
theorem register_of_number {ch page number : UInt8} (hpage : map.page ch = .ok page)
    (h : (map.register ch name).map (·.number) = .ok number) :
    map.register ch name = .ok ⟨page, number⟩ := by
  obtain ⟨r, hr, rfl⟩ := map_eq_ok_iff.1 h
  rw [ChannelMap.page_eq hr, Except.ok.injEq] at hpage
  rw [hr, ← hpage]

theorem mode_eq_ok {output : OutputSelect} {length : Nat} {v : Int}
    (h : pulse.mode output length = .ok v) : UInt32.ofInt v = modeWord pulse output length := by
  unfold Pulse.mode modeWord? at h
  by_cases hlength : length < maxLength
  · rw [if_pos hlength] at h
    obtain rfl := Except.ok.inj h
    exact ofInt_natCast _
  · rw [if_neg hlength] at h
    contradiction

/-- A start time cannot be negative: its register is written. -/
theorem nonneg_of_emitSet {t : Int} (hset : Sequencer.emitSet map pulse p t = .ok p') : 0 ≤ t := by
  obtain ⟨written, hwritten, -⟩ := bind_eq_ok_iff.1 hset
  obtain ⟨-, -, -, hnonneg, -, -⟩ := writeRegister_eq_ok hwritten
  exact hnonneg

theorem nonneg_of_emitPlay {t : Int} (hplay : Sequencer.emitPlay map pulse p t = .ok p') :
    0 ≤ t := by
  unfold Sequencer.emitPlay at hplay
  split at hplay
  · exact nonneg_of_emitSet hplay
  · exact nonneg_of_emitSet hplay
  · dsimp only at hplay
    split at hplay
    · contradiction
    · obtain ⟨written, -, hplay⟩ := bind_eq_ok_iff.1 hplay
      obtain ⟨next, hnext, -⟩ := bind_eq_ok_iff.1 hplay
      exact nonneg_of_emitSet hnext

namespace Playable

/-- **A parameter that is written is the one written last.** -/
theorem writeRegister (h : Playable map q ws) {t : Int}
    (hwrite : Sequencer.writeRegister map pulse p name t = .ok p') (hext : p'.Extends q)
    (tl : Timeline) :
    Carries map ws p tl p' (tl.write pulse.channel name (.ofInt t)) := by
  obtain ⟨r, comment, hr, -, -, rfl⟩ := writeRegister_eq_ok hwrite
  intro m hm
  obtain ⟨ms, hms⟩ :=
    Program.passage_loadConstant h.encode (h.sound.valid hr) hext hm.running
  exact ⟨_, ms, hms, hm.write h.sound hr⟩

/-- **Latching**: the update carries the parameters written last. -/
theorem emitSet (h : Playable map q ws) {t : Int}
    (hset : Sequencer.emitSet map pulse p t = .ok p') (hext : p'.Extends q) (tl : Timeline) :
    Carries map ws p tl p' (tl.set pulse.channel t) := by
  obtain ⟨written, hwritten, hset⟩ := bind_eq_ok_iff.1 hset
  obtain ⟨page, hpage, hset⟩ := bind_eq_ok_iff.1 hset
  obtain ⟨freq, hfreq, hset⟩ := bind_eq_ok_iff.1 hset
  obtain ⟨phase, hphase, hset⟩ := bind_eq_ok_iff.1 hset
  obtain ⟨addr, haddr, hset⟩ := bind_eq_ok_iff.1 hset
  obtain ⟨gain, hgain, hset⟩ := bind_eq_ok_iff.1 hset
  obtain ⟨mode, hmode, hset⟩ := bind_eq_ok_iff.1 hset
  obtain ⟨time, htime, hset⟩ := bind_eq_ok_iff.1 hset
  obtain rfl := Except.ok.inj hset
  obtain ⟨r, comment, hr, hnonneg, hlt, rfl⟩ := writeRegister_eq_ok hwritten
  have htime' := register_of_number hpage htime
  obtain rfl : r = ⟨page, time⟩ := Except.ok.inj (hr.symm.trans htime')
  intro m hm
  -- The start time is in its register, where it hides no parameter.
  obtain ⟨ms, hms⟩ := Program.passage_loadConstant h.encode (h.sound.valid hr)
    ((Program.extends_append ..).trans hext) hm.running
  have hm' : tl.ShownBy map (m.put ⟨page, time⟩ (.ofInt t)) :=
    hm.put h.sound (h.sound.valid hr) fun ch name hname => (h.sound.injective hname hr).2
  have hnext := ((Program.at_append ..).extends hext).next?_set h.encode hm'.running
  have hle := Isa.one_shiftLeft_le (h.sound.width_le .time)
  have htoNat : ((UInt32.ofInt t).toNat : Int) = t := by
    rw [toNat_ofInt, Int.emod_eq_of_lt hnonneg (by omega)]
  rw [Machine.get_put_self (h.sound.valid hr), htoNat, hm'.offset, Int.add_comm,
    hm'.params (by decide) (register_of_number hpage hfreq),
    hm'.params (by decide) (register_of_number hpage hphase),
    hm'.params (by decide) (register_of_number hpage haddr),
    hm'.params (by decide) (register_of_number hpage hgain),
    hm'.params (by decide) (register_of_number hpage hmode)] at hnext
  rw [Program.size_append]
  exact ⟨_, _, hms.trans (.single hnext), hm'.emit _⟩

/-! ### Pulses -/

theorem emitSegment (h : Playable map q ws) {addr : Int} {length : Nat} {output : OutputSelect}
    (hsegment : Sequencer.emitSegment map pulse p addr length output = .ok p')
    (hext : p'.Extends q) (tl : Timeline) :
    Carries map ws p tl p' (tl.segment pulse addr length output) := by
  obtain ⟨mode, hmode, hsegment⟩ := bind_eq_ok_iff.1 hsegment
  obtain ⟨written, hwritten, hsegment⟩ := bind_eq_ok_iff.1 hsegment
  rw [segment, ← mode_eq_ok hmode]
  exact (h.writeRegister hwritten
    ((Sequencer.writes_writeRegister hsegment).extends.trans hext) tl).trans
      (h.writeRegister hsegment hext _)

/-- **Setting up a pulse** writes its parameters. -/
theorem emitSetup (h : Playable map q ws) (hsetup : Sequencer.emitSetup map pulse p = .ok p')
    (hext : p'.Extends q) (tl : Timeline) : Carries map ws p tl p' (tl.setup pulse) := by
  obtain ⟨freq, hfreq, hsetup⟩ := bind_eq_ok_iff.1 hsetup
  obtain ⟨phase, hphase, hsetup⟩ := bind_eq_ok_iff.1 hsetup
  obtain ⟨gain, hgain, hsetup⟩ := bind_eq_ok_iff.1 hsetup
  have hcommon : gain.Extends q → Carries map ws p tl gain
      (((tl.write pulse.channel .freq (.ofInt pulse.freq)).write pulse.channel .phase
        (.ofInt pulse.phase)).write pulse.channel .gain (.ofInt pulse.gain)) := fun hgainExt => by
    have hphaseExt := (Sequencer.writes_writeRegister hgain).extends.trans hgainExt
    have hfreqExt := (Sequencer.writes_writeRegister hphase).extends.trans hphaseExt
    exact ((h.writeRegister hfreq hfreqExt _).trans (h.writeRegister hphase hphaseExt _)).trans
      (h.writeRegister hgain hgainExt _)
  unfold setup
  cases hstyle : pulse.style with
  | constant =>
    rw [hstyle] at hsetup
    exact (hcommon ((Sequencer.writes_emitSegment hsetup).extends.trans hext)).trans
      (h.emitSegment hsetup hext _)
  | arbitrary =>
    rw [hstyle] at hsetup
    exact (hcommon ((Sequencer.writes_emitSegment hsetup).extends.trans hext)).trans
      (h.emitSegment hsetup hext _)
  | flatTop ramp =>
    rw [hstyle] at hsetup
    obtain rfl := Except.ok.inj hsetup
    exact hcommon hext

/-- A segment and its update. -/
theorem emitSegments_cons (h : Playable map q ws) {t addr : Int} {length : Nat}
    {output : OutputSelect} {rest : List (Int × Nat × OutputSelect)}
    (hsegments : Sequencer.emitSegments map pulse p t ((addr, length, output) :: rest) = .ok p')
    (hext : p'.Extends q) :
    ∃ next, Sequencer.emitSegments map pulse next (t + length) rest = .ok p' ∧
      ∀ tl, Carries map ws p tl next
        ((tl.segment pulse addr length output).set pulse.channel t) := by
  obtain ⟨written, hwritten, hsegments⟩ := bind_eq_ok_iff.1 hsegments
  obtain ⟨next, hnext, hrest⟩ := bind_eq_ok_iff.1 hsegments
  have hnextExt := (Sequencer.writes_emitSegments hrest).extends.trans hext
  exact ⟨next, hrest, fun tl =>
    (h.emitSegment hwritten ((Sequencer.writes_emitSet hnext).extends.trans hnextExt) tl).trans
      (h.emitSet hnext hnextExt _)⟩

/-- **Playing a pulse** makes its updates. -/
theorem emitPlay (h : Playable map q ws) {t : Int}
    (hplay : Sequencer.emitPlay map pulse p t = .ok p') (hext : p'.Extends q) (tl : Timeline) :
    Carries map ws p tl p' (tl.latch pulse t) := by
  unfold Sequencer.emitPlay at hplay
  unfold latch
  cases hstyle : pulse.style with
  | constant =>
    rw [hstyle] at hplay
    exact h.emitSet hplay hext tl
  | arbitrary =>
    rw [hstyle] at hplay
    exact h.emitSet hplay hext tl
  | flatTop ramp =>
    rw [hstyle] at hplay
    dsimp only at hplay
    by_cases hshort : Pulse.rampHalf ramp = 0
    · rw [if_pos hshort] at hplay
      contradiction
    rw [if_neg hshort] at hplay
    obtain ⟨up, hup, hcarriesUp⟩ := h.emitSegments_cons hplay hext
    obtain ⟨flat, hflat, hcarriesFlat⟩ := h.emitSegments_cons hup hext
    obtain ⟨down, hdown, hcarriesDown⟩ := h.emitSegments_cons hflat hext
    obtain rfl := Except.ok.inj hdown
    exact ((hcarriesUp _).trans (hcarriesFlat _)).trans (hcarriesDown _)

end Playable

/-! ### Triggers -/

theorem pattern_append (lines lines' : List Nat) :
    pattern (lines ++ lines') = pattern lines ||| pattern lines' := by
  induction lines with
  | nil => simp [pattern]
  | cons line lines ih =>
    show 1 <<< line ||| pattern (lines ++ lines') = (1 <<< line ||| pattern lines) ||| _
    rw [ih, Nat.or_assoc]

/-- There are 16 lines. -/
theorem pattern_lt {lines : List Nat} (h : ∀ line ∈ lines, line < 16) :
    pattern lines < 65536 := by
  induction lines with
  | nil => decide
  | cons line lines ih =>
    rw [List.forall_mem_cons] at h
    have hline : 1 <<< line < 2 ^ 16 := by
      rw [Nat.one_shiftLeft]
      exact Nat.pow_lt_pow_right (by decide) h.1
    exact Nat.or_lt_two_pow hline (ih h.2)

theorem readoutPattern_eq_ok {raised raised' : Nat} {readouts : List UInt8}
    (h : Sequencer.readoutPattern raised readouts = .ok raised') :
    raised' = raised ||| pattern (readouts.map (14 + ·.toNat)) ∧
      ∀ line ∈ readouts.map (14 + ·.toNat), line < 16 := by
  induction readouts generalizing raised with
  | nil =>
    cases h
    simp [pattern]
  | cons line rest ih =>
    rw [Sequencer.readoutPattern] at h
    by_cases hbad : line.toNat ≥ readoutTriggerCount
    · rw [if_pos hbad] at h
      contradiction
    rw [if_neg hbad] at h
    obtain ⟨heq, hall⟩ := ih h
    rw [readoutTriggerCount] at hbad
    refine ⟨by rw [heq, Nat.or_assoc]; rfl, ?_⟩
    rw [List.map_cons, List.forall_mem_cons]
    exact ⟨by omega, hall⟩

theorem markerPattern_eq_ok {raised raised' : Nat} {markers : List UInt8}
    (h : Sequencer.markerPattern raised markers = .ok raised') :
    raised' = raised ||| pattern (markers.map (·.toNat)) ∧
      ∀ line ∈ markers.map (·.toNat), line < 16 := by
  induction markers generalizing raised with
  | nil =>
    cases h
    simp [pattern]
  | cons pin rest ih =>
    rw [Sequencer.markerPattern] at h
    by_cases hbad : pin.toNat ≥ readoutTriggerBit
    · rw [if_pos hbad] at h
      contradiction
    rw [if_neg hbad] at h
    obtain ⟨heq, hall⟩ := ih h
    rw [readoutTriggerBit] at hbad
    refine ⟨by rw [heq, Nat.or_assoc]; rfl, ?_⟩
    rw [List.map_cons, List.forall_mem_cons]
    exact ⟨by omega, hall⟩

/-- What triggers add to a program. -/
theorem emitTrigger_eq_ok {readouts markers : List UInt8} {t width : Int}
    (h : Sequencer.emitTrigger p readouts markers t width = .ok p') :
    pattern (lines readouts markers) < 65536 ∧ ∃ c c' c'', p' =
      ((p.append (.regwi triggerRegister.page triggerRegister.number
        (pattern (lines readouts markers) : Nat)) c).append
          (.seti 0 triggerRegister.page triggerRegister.number t) c').append
            (.seti 0 0 0 (t + width)) c'' := by
  obtain ⟨raised, hraised, h⟩ := bind_eq_ok_iff.1 h
  obtain ⟨raised', hraised', h⟩ := bind_eq_ok_iff.1 h
  dsimp only [triggerRegister] at h ⊢
  by_cases hwidth : width ≤ 0
  · rw [if_pos hwidth] at h
    contradiction
  rw [if_neg hwidth] at h
  obtain rfl := Except.ok.inj h
  obtain ⟨rfl, hreadouts⟩ := readoutPattern_eq_ok hraised
  obtain ⟨rfl, hmarkers⟩ := markerPattern_eq_ok hraised'
  rw [lines, pattern_append, Nat.zero_or]
  refine ⟨?_, _, _, _, rfl⟩
  rw [← pattern_append]
  exact pattern_lt fun line hline => (List.mem_append.1 hline).elim (hreadouts line) (hmarkers line)

namespace Playable

/-- **Triggers** put out the pattern, and then nothing. -/
theorem emitTrigger (h : Playable map q ws) {readouts markers : List UInt8} {t width : Int}
    (htrigger : Sequencer.emitTrigger p readouts markers t width = .ok p') (hext : p'.Extends q)
    (tl : Timeline) : Carries map ws p tl p' (tl.trigger readouts markers t width) := by
  obtain ⟨hlt, c, c', c'', rfl⟩ := emitTrigger_eq_ok htrigger
  generalize hpattern : pattern (lines readouts markers) = pattern at hlt hext ⊢
  intro m hm
  have hext' := (Program.extends_append ..).trans hext
  have hload := (Program.at_append ..).extends ((Program.extends_append ..).trans hext')
  have hraise := (Program.at_append ..).extends hext'
  have hlower := (Program.at_append ..).extends hext
  have hr : triggerRegister.Valid := ⟨by decide, by decide, by decide⟩
  have hnarrow : Isa.Narrow (pattern : Int) := ⟨by omega, by omega⟩
  -- The pattern goes into a register that holds no parameter.
  have hm₁ : tl.ShownBy map (m.put triggerRegister (.ofNat pattern)) :=
    hm.put h.sound hr fun ch name hname => absurd hname (h.unshared ch name)
  have hm₂ := hm₁.emit (.seti 0 (tl.offset + t) (.ofNat pattern))
  have hm₃ := hm₂.emit (.seti 0 (tl.offset + (t + width)) 0)
  have hnext := hload.next?_regwi h.encode hm.running
  rw [hnarrow.bmod, ofInt_natCast] at hnext
  have hnext₁ := hraise.next?_seti h.encode hm₁.running
  rw [(h.narrow _ _ hraise t rfl).bmod, Machine.get_put_self hr, hm₁.offset, Int.add_comm t]
    at hnext₁
  have hnext₂ := hlower.next?_seti (r := ⟨0, 0⟩) h.encode hm₂.running
  rw [(h.narrow _ _ hlower _ rfl).bmod, hm₂.zero, hm₂.offset, Int.add_comm (t + width)] at hnext₂
  simp only [Program.size_append] at hnext₁ hnext₂ ⊢
  refine ⟨_, _, ((Passage.single hnext).trans (.single hnext₁)).trans (.single hnext₂), ?_⟩
  rw [trigger, hpattern]
  rw [List.append_assoc] at hm₃
  exact hm₃

end Playable

end Timeline
end PulseProcessor
