import Mathlib.Data.List.Chain
import PulseProcessor.Proofs.Interpreter.Pulses
import PulseProcessor.Proofs.Pulse.Atomicity
import PulseProcessor.Proofs.Pulse.Syncing

/-! # Where pulses are placed

A pulse whose start is left to the sequencer is placed where its channel is free.  The calls of a
caller succeed or fail in any order, and those that schedule a pulse leave a `Placement`: from when
to when the pulse lasts, in absolute time, and what code it has got.

On each channel placements do not overlap, and they come in the order of the calls
(`Sequencer.placements_tile`).  What carries this through sync points is that the time at which a
channel is free never moves backwards (`Passes`).  Where the time offset has not been moved on
between two placements of a channel, the second one begins as the first one ends; the offset may be
moved on though the sequencer keeps its timestamps, namely by a wait behind pulses that take no
time, so it has to be asked for the steps themselves (`Program.syncs`).  The segments of a flat-top
pulse tile its placement.
-/

namespace PulseProcessor

open Interpreter (State)

/-! ### Steps of the time offset -/

namespace Instruction

def isSynci : Instruction → Bool
  | .synci _ => true
  | _ => false

theorem OfPulse.isSynci_eq {i : Instruction} (h : i.OfPulse) : i.isSynci = false := by
  cases h <;> rfl

end Instruction

namespace Program

variable {p q : Program}

/-- How often a program moves the time offset on. -/
def syncs (p : Program) : Nat := p.instructions.countP (·.isSynci)

theorem syncs_append (p : Program) (i : Instruction) (comment : Option String) :
    (p.append i comment).syncs = p.syncs + i.isSynci.toNat := by
  rw [syncs, instructions_append, List.countP_append, List.countP_singleton]
  cases i.isSynci <;> rfl

theorem syncs_foldl_synci (p : Program) (steps : List Int) :
    (steps.foldl (fun p t => p.append (.synci t)) p).syncs = p.syncs + steps.length := by
  induction steps generalizing p with
  | nil => rfl
  | cons t steps ih =>
    rw [List.foldl_cons, ih, syncs_append, List.length_cons, Nat.add_assoc]
    exact congrArg (p.syncs + ·) (Nat.add_comm ..)

theorem Writes.syncs_eq (h : Writes Instruction.OfPulse p q) : q.syncs = p.syncs := by
  induction h with
  | refl => rfl
  | append _ hi comment ih =>
    rw [syncs_append, ih, hi.isSynci_eq]
    rfl

end Program

/-! ### Placements -/

/-- A pulse that a call has scheduled. -/
structure Placement where
  pulse : Pulse
  /-- The program before the call. -/
  before : Program
  /-- The program with the code of the call. -/
  after : Program
  /-- When it starts, as the call has answered. -/
  start : Int

namespace Placement

variable {p : Placement}

/-- When the pulse begins, in absolute time. -/
def begins (p : Placement) : Int := p.before.waited + p.start

/-- When it is over. -/
def ends (p : Placement) : Int := p.begins + p.pulse.duration

/-- What the call has written. -/
def code (p : Placement) : List Instruction :=
  p.after.instructions.drop p.before.instructions.length

theorem begins_le_ends (p : Placement) : p.begins ≤ p.ends :=
  Int.le_add_of_nonneg_right (Timeline.Playable.duration_nonneg p.pulse)

/-- The code of a flat-top pulse draws its segments. -/
def Drawn (p : Placement) : Prop :=
  ∀ ramp, p.pulse.style = .flatTop ramp → ∀ q, Program.Draws q p.pulse.channel p.before p.after
    fun time => Event.spansFrom (p.start + time)
      [Pulse.rampHalf ramp, p.pulse.length.toNat, Pulse.rampHalf ramp]

/-- **The segments of a flat-top pulse tile its interval.**  If the code of the call is carried out
where the time offset is what the program before it has made of it, the updates on the channel are
those of ramp, plateau and ramp, from the beginning of the pulse to its end. -/
def Tiled (p : Placement) : Prop :=
  ∀ ramp, p.pulse.style = .flatTop ramp → ∀ (q : Program) (s : State), s.time = p.before.waited →
    ∃ s' events, s.executeAll q p.code = .ok s' ∧ s'.time = s.time ∧
      s'.events = s.events ++ events ∧
      let up : Int := p.begins + Pulse.rampHalf ramp
      let down : Int := up + p.pulse.length.toNat
      Event.spans p.pulse.channel events = [(p.begins, up), (up, down), (down, p.ends)]

theorem Drawn.tiled (h : p.Drawn) : p.Tiled := by
  intro ramp hstyle q s htime
  obtain ⟨s', events, ⟨written, hemits, hwritten⟩, htime', hevents, hspans⟩ := h ramp hstyle q s
  have hcode : p.code = written := by rw [code, hemits.instructions, List.drop_left]
  refine ⟨s', events, hcode ▸ hwritten, htime', hevents, ?_⟩
  have hbegins : p.start + s.time = p.begins := by rw [htime, Int.add_comm, begins]
  have hends : p.begins + Pulse.rampHalf ramp + p.pulse.length.toNat + Pulse.rampHalf ramp =
      p.ends := by
    rw [ends, Pulse.duration, hstyle]
    dsimp only
    omega
  dsimp only at hspans ⊢
  rw [hspans, hbegins, ← hends]
  rfl

/-- The placements on a channel. -/
def onChannel (ch : UInt8) (ps : List Placement) : List Placement :=
  ps.filter (·.pulse.channel = ch)

end Placement

namespace Sequencer

open Instruction (OfPulse)
open Program (Writes)
open Placement (onChannel)

/-- What a call has scheduled, given its answer. -/
def placement? (call : Call) (before after : Program) :
    Except AssemblyError (Option Int) → Option Placement
  | .ok (some start) => call.pulse?.map ({ pulse := ·, before, after, start })
  | _ => none

/-- **All that calls schedule**, those that fail included. -/
def placements (map : ChannelMap) (s : Sequencer) : List Call → List Placement
  | [] => []
  | call :: calls =>
    let (answer, s') := Edit.outcome (InPlace.perform map call) s
    (placement? call s.program s'.program answer).toList ++ placements map s' calls

/-- A start that is given is none that the sequencer chooses. -/
def Call.Auto : Call → Prop
  | .play _ start | .pulse _ start | .measure _ _ _ start => start = .auto
  | _ => True

variable {map : ChannelMap} {s s' s'' : Sequencer} {pulse : Pulse} {p : Placement}
  {ps : List Placement} {start : Start} {t extra : Int}

/-! ### Calls that schedule nothing -/

theorem timestamp_congr (h : s'.timestamps = s.timestamps) (ch : UInt8) :
    s'.timestamp ch = s.timestamp ch := by
  rw [timestamp, h, timestamp]

theorem setup_eq_ok (h : s.setup map pulse = .ok s') :
    s'.timestamps = s.timestamps ∧ emitSetup map pulse s.program = .ok s'.program := by
  obtain ⟨p, hp, h⟩ := bind_eq_ok_iff.1 h
  cases h
  exact ⟨rfl, hp⟩

theorem trigger_eq_ok {readouts markers : List UInt8} {width : Int}
    (h : s.trigger readouts markers t width = .ok s') : s'.timestamps = s.timestamps ∧
      emitTrigger s.program readouts markers t width = .ok s'.program := by
  obtain ⟨p, hp, h⟩ := bind_eq_ok_iff.1 h
  cases h
  exact ⟨rfl, hp⟩

/-- **A channel does not become free earlier**, and stays as it is if the time offset does. -/
structure Passes (s s' : Sequencer) : Prop where
  nonneg : ∀ x ∈ s'.timestamps, 0 ≤ x.2
  free_le : ∀ ch, s.program.waited + s.timestamp ch ≤ s'.program.waited + s'.timestamp ch
  syncs_le : s.program.syncs ≤ s'.program.syncs
  unmoved : s'.program.syncs = s.program.syncs →
    s'.program.waited = s.program.waited ∧ ∀ ch, s'.timestamp ch = s.timestamp ch

namespace Passes

theorem trans (h : Passes s s') (h' : Passes s' s'') : Passes s s'' where
  nonneg := h'.nonneg
  free_le ch := Int.le_trans (h.free_le ch) (h'.free_le ch)
  syncs_le := Nat.le_trans h.syncs_le h'.syncs_le
  unmoved hsyncs := by
    have hle := h.syncs_le
    have hle' := h'.syncs_le
    obtain ⟨hwaited, htimestamps⟩ := h.unmoved (by omega)
    obtain ⟨hwaited', htimestamps'⟩ := h'.unmoved (by omega)
    exact ⟨hwaited'.trans hwaited, fun ch => (htimestamps' ch).trans (htimestamps ch)⟩

/-- Code of pulses alone changes nothing. -/
theorem of_writes (hnonneg : ∀ x ∈ s.timestamps, 0 ≤ x.2)
    (hwrites : Writes OfPulse s.program s'.program) (htimestamps : s'.timestamps = s.timestamps) :
    Passes s s' := by
  have hsame := timestamp_congr htimestamps
  exact {
    nonneg := htimestamps ▸ hnonneg
    free_le := fun ch => Int.le_of_eq (by rw [hwrites.waited_eq, hsame])
    syncs_le := Nat.le_of_eq hwrites.syncs_eq.symm
    unmoved := fun _ => ⟨hwrites.waited_eq, hsame⟩ }

theorem of_syncAll (hnonneg : ∀ x ∈ s.timestamps, 0 ≤ x.2) (hextra : 0 ≤ extra) :
    Passes s (s.syncAll extra) := by
  have hle := le_waited_syncAll hnonneg hextra
  rw [syncAll_eq] at hle ⊢
  by_cases hpos : s.lastEnd + extra > 0
  · rw [if_pos hpos] at hle ⊢
    have hsyncs : (s.program.append (.synci (s.lastEnd + extra))).syncs = s.program.syncs + 1 :=
      Program.syncs_append ..
    refine ⟨by simp, fun ch => ?_, by simp only [hsyncs]; omega, fun hsame => ?_⟩
    · exact Int.le_trans (hle ch) (Int.le_of_eq (Int.add_zero _).symm)
    · simp only [hsyncs] at hsame
      omega
  · rw [if_neg hpos]
    exact .of_writes hnonneg (.refl _) rfl

theorem of_delay (hnonneg : ∀ x ∈ s.timestamps, 0 ≤ x.2) (cycles : Int) :
    Passes s (s.delay cycles) := by
  have hsync := of_syncAll hnonneg (Int.le_refl 0)
  refine hsync.trans ⟨hsync.nonneg, fun ch => ?_, ?_, fun hsame => ⟨?_, fun _ => rfl⟩⟩
  · show _ ≤ Program.waited ((delaySteps cycles).foldl _ _) + (s.syncAll 0).timestamp ch
    rw [Program.waited_foldl_synci, Timeline.sum_delaySteps]
    omega
  · show _ ≤ Program.syncs ((delaySteps cycles).foldl _ _)
    rw [Program.syncs_foldl_synci]
    exact Nat.le_add_right ..
  · have hsame : Program.syncs ((delaySteps cycles).foldl _ _) = (s.syncAll 0).program.syncs :=
      hsame
    rw [Program.syncs_foldl_synci] at hsame
    show Program.waited ((delaySteps cycles).foldl _ _) = _
    rw [List.length_eq_zero_iff.1 (Nat.add_eq_left.1 hsame)]
    rfl

end Passes

/-! ### Calls that schedule a pulse -/

/-- **A pulse is placed where its channel is free**, and occupies the channel up to its end. -/
structure Places (s : Sequencer) (p : Placement) (s' : Sequencer) : Prop where
  before : p.before = s.program
  after : p.after = s'.program
  writes : Writes OfPulse s.program s'.program
  start : p.start = s.timestamp p.pulse.channel
  timestamp : ∀ ch, s'.timestamp ch =
    if ch = p.pulse.channel then p.start + p.pulse.duration else s.timestamp ch
  nonneg : ∀ x ∈ s'.timestamps, 0 ≤ x.2
  drawn : p.Drawn

namespace Places

theorem begins_eq (h : Places s p s') :
    p.begins = s.program.waited + s.timestamp p.pulse.channel := by
  rw [Placement.begins, h.before, h.start]

theorem ends_eq (h : Places s p s') :
    p.ends = s'.program.waited + s'.timestamp p.pulse.channel := by
  rw [Placement.ends, Placement.begins, h.before, h.timestamp, if_pos rfl, h.writes.waited_eq,
    Int.add_assoc]

/-- No channel is free earlier. -/
theorem free_le (h : Places s p s') (ch : UInt8) :
    s.program.waited + s.timestamp ch ≤ s'.program.waited + s'.timestamp ch := by
  rw [h.writes.waited_eq, h.timestamp]
  by_cases hch : ch = p.pulse.channel
  · have hduration := Timeline.Playable.duration_nonneg p.pulse
    rw [if_pos hch, h.start, hch]
    omega
  · exact Int.le_of_eq (by rw [if_neg hch])

theorem of_play (hmap : map.Sound) (hnonneg : ∀ x ∈ s.timestamps, 0 ≤ x.2)
    (hauto : s.startTime pulse.channel start = s.timestamp pulse.channel)
    (hplay : s.play map pulse start = .ok (s', t)) :
    Places s { pulse, before := s.program, after := s'.program, start := t } s' := by
  have hwrites := writes_play hplay
  obtain ⟨program, hprogram, hplay⟩ := bind_eq_ok_iff.1 hplay
  cases hplay
  rw [hauto] at hprogram hwrites ⊢
  refine ⟨rfl, rfl, hwrites, rfl, fun ch => Timeline.timestamp_setTimestamp .., ?_, ?_⟩
  · have hstart := nonneg_timestamp hnonneg pulse.channel
    rintro x (_ | ⟨_, hx⟩)
    · exact Int.add_nonneg hstart (Timeline.Playable.duration_nonneg pulse)
    · exact hnonneg x (List.mem_filter.1 hx).1
  · intro ramp hstyle q
    have hstyle : pulse.style = .flatTop ramp := hstyle
    rw [emitPlay, hstyle] at hprogram
    dsimp only at hprogram
    split at hprogram
    · contradiction
    · exact .of_emitSegments hmap hprogram q

/-- What is written in front of a pulse makes no difference to it, if it draws nothing. -/
theorem behind {p : Placement} (h : Places s' p s'') (hwrites : Writes OfPulse s.program s'.program)
    (htimestamps : s'.timestamps = s.timestamps)
    (hdraws : ∀ ramp, p.pulse.style = .flatTop ramp → ∀ q,
      Program.Draws q p.pulse.channel s.program s'.program fun _ => []) :
    Places s { p with before := s.program } s'' where
  before := rfl
  after := h.after
  writes := hwrites.trans h.writes
  start := h.start.trans (timestamp_congr htimestamps _)
  timestamp ch := by rw [h.timestamp, timestamp_congr htimestamps]
  nonneg := h.nonneg
  drawn ramp hstyle q := by
    have hplay := h.drawn ramp hstyle q
    rw [h.before] at hplay
    exact (hdraws ramp hstyle q).trans hplay

theorem of_pulse (hmap : map.Sound) (hnonneg : ∀ x ∈ s.timestamps, 0 ≤ x.2)
    (hauto : s.startTime pulse.channel start = s.timestamp pulse.channel)
    (hpulse : s.pulse map pulse start = .ok (s', t)) :
    Places s { pulse, before := s.program, after := s'.program, start := t } s' := by
  obtain ⟨s₁, hsetup, hplay⟩ := bind_eq_ok_iff.1 hpulse
  obtain ⟨htimestamps, hemit⟩ := setup_eq_ok hsetup
  have hauto' : s₁.startTime pulse.channel start = s₁.timestamp pulse.channel := by
    cases start with
    | auto => rfl
    | «at» t => rwa [timestamp_congr htimestamps]
  exact (of_play hmap (htimestamps ▸ hnonneg) hauto' hplay).behind (writes_setup hsetup) htimestamps
    fun ramp hstyle q => .of_emitSetup hmap hstyle hemit q _

theorem of_measure (hmap : map.Sound) (hnonneg : ∀ x ∈ s.timestamps, 0 ≤ x.2)
    {readouts : List UInt8} {offset : Int}
    (hmeasure : s.measure map pulse readouts offset .auto = .ok (s', t)) :
    Places s { pulse, before := s.program, after := s'.program, start := t } s' := by
  obtain ⟨s₁, htrigger, hpulse⟩ := bind_eq_ok_iff.1 hmeasure
  obtain ⟨htimestamps, hemit⟩ := trigger_eq_ok htrigger
  have hauto : s₁.startTime pulse.channel (.at (s.startTime pulse.channel .auto)) =
      s₁.timestamp pulse.channel := (timestamp_congr htimestamps _).symm
  exact (of_pulse hmap (htimestamps ▸ hnonneg) hauto hpulse).behind (writes_trigger htrigger)
    htimestamps fun _ _ q => .of_emitTrigger hemit q _

end Places

/-- **Each call** schedules a pulse, or nothing. -/
theorem perform_places (hmap : map.Sound) (hnonneg : ∀ x ∈ s.timestamps, 0 ≤ x.2) {call : Call}
    {start? : Option Int} (hauto : call.Auto) (hextra : ∀ extra, call = .syncAll extra → 0 ≤ extra)
    (hperform : s.perform map call = .ok (s', start?)) :
    (placement? call s.program s'.program (.ok start?) = none ∧ Passes s s') ∨
      ∃ p, placement? call s.program s'.program (.ok start?) = some p ∧ Places s p s' := by
  cases call with
  | setup pulse =>
    obtain ⟨s₁, hs₁, hperform⟩ := bind_eq_ok_iff.1 hperform
    cases hperform
    exact .inl ⟨rfl, .of_writes hnonneg (writes_setup hs₁) (setup_eq_ok hs₁).1⟩
  | play pulse start =>
    obtain ⟨⟨s₁, t⟩, hs₁, heq⟩ := map_eq_ok_iff.1 hperform
    cases heq
    obtain rfl : start = .auto := hauto
    exact .inr ⟨_, rfl, .of_play hmap hnonneg rfl hs₁⟩
  | pulse pulse start =>
    obtain ⟨⟨s₁, t⟩, hs₁, heq⟩ := map_eq_ok_iff.1 hperform
    cases heq
    obtain rfl : start = .auto := hauto
    exact .inr ⟨_, rfl, .of_pulse hmap hnonneg rfl hs₁⟩
  | measure pulse readouts offset start =>
    obtain ⟨⟨s₁, t⟩, hs₁, heq⟩ := map_eq_ok_iff.1 hperform
    cases heq
    obtain rfl : start = .auto := hauto
    exact .inr ⟨_, rfl, .of_measure hmap hnonneg hs₁⟩
  | trigger readouts markers t width =>
    obtain ⟨s₁, hs₁, hperform⟩ := bind_eq_ok_iff.1 hperform
    cases hperform
    exact .inl ⟨rfl, .of_writes hnonneg (writes_trigger hs₁) (trigger_eq_ok hs₁).1⟩
  | syncAll extra =>
    cases hperform
    exact .inl ⟨rfl, .of_syncAll hnonneg (hextra extra rfl)⟩
  | delay cycles =>
    cases hperform
    exact .inl ⟨rfl, .of_delay hnonneg cycles⟩

/-! ### Runs of calls -/

/-- **What has been placed so far, and what the sequencer makes of it**: on no channel does a pulse
end after the channel is free, and the last one ends just then unless the time offset has been moved
on since. -/
structure Placed (ps : List Placement) (s : Sequencer) : Prop where
  nonneg : ∀ x ∈ s.timestamps, 0 ≤ x.2
  ends_le : ∀ p ∈ ps, p.ends ≤ s.program.waited + s.timestamp p.pulse.channel
  syncs_le : ∀ p ∈ ps, p.after.syncs ≤ s.program.syncs
  last_ends : ∀ ch, ∀ p ∈ (onChannel ch ps).getLast?, s.program.syncs = p.after.syncs →
    p.ends = s.program.waited + s.timestamp ch
  apart : ∀ ch, (onChannel ch ps).Pairwise fun p q => p.ends ≤ q.begins
  gapless : ∀ ch, (onChannel ch ps).IsChain fun p q =>
    q.before.syncs = p.after.syncs → q.begins = p.ends
  drawn : ∀ p ∈ ps, p.Drawn

namespace Placed

theorem mem_of_onChannel {ch : UInt8} (h : p ∈ onChannel ch ps) :
    p ∈ ps ∧ p.pulse.channel = ch := by
  simpa [onChannel] using h

theorem onChannel_concat (ch : UInt8) (ps : List Placement) (p : Placement) :
    onChannel ch (ps ++ [p]) =
      if p.pulse.channel = ch then onChannel ch ps ++ [p] else onChannel ch ps := by
  by_cases hch : p.pulse.channel = ch <;> simp [onChannel, hch]

theorem passes (h : Placed ps s) (hpasses : Passes s s') : Placed ps s' where
  nonneg := hpasses.nonneg
  ends_le p hp := Int.le_trans (h.ends_le p hp) (hpasses.free_le _)
  syncs_le p hp := Nat.le_trans (h.syncs_le p hp) hpasses.syncs_le
  last_ends ch p hp hsyncs := by
    have hbefore := h.syncs_le p (mem_of_onChannel (List.mem_of_getLast? hp)).1
    have hafter := hpasses.syncs_le
    obtain ⟨hwaited, htimestamps⟩ := hpasses.unmoved (by omega)
    rw [hwaited, htimestamps]
    exact h.last_ends ch p hp (by omega)
  apart := h.apart
  gapless := h.gapless
  drawn := h.drawn

/-- A placement that begins where its channel is free lies behind all others. -/
theorem places (h : Placed ps s) (hplaces : Places s p s') : Placed (ps ++ [p]) s' where
  nonneg := hplaces.nonneg
  ends_le := List.forall_mem_append.2
    ⟨fun q hq => Int.le_trans (h.ends_le q hq) (hplaces.free_le _),
      List.forall_mem_singleton.2 (Int.le_of_eq hplaces.ends_eq)⟩
  syncs_le := List.forall_mem_append.2
    ⟨fun q hq => Nat.le_trans (h.syncs_le q hq) (Nat.le_of_eq hplaces.writes.syncs_eq.symm),
      List.forall_mem_singleton.2 (Nat.le_of_eq (congrArg Program.syncs hplaces.after))⟩
  last_ends ch q hq hsame := by
    by_cases hch : p.pulse.channel = ch
    · rw [onChannel_concat, if_pos hch, List.getLast?_concat] at hq
      obtain rfl := Option.some.inj hq
      rw [← hch]
      exact hplaces.ends_eq
    · rw [onChannel_concat, if_neg hch] at hq
      rw [hplaces.writes.waited_eq, hplaces.timestamp, if_neg (Ne.symm hch)]
      exact h.last_ends ch q hq (hplaces.writes.syncs_eq ▸ hsame)
  apart ch := by
    rw [onChannel_concat]
    by_cases hch : p.pulse.channel = ch
    · rw [if_pos hch, List.pairwise_append]
      refine ⟨h.apart ch, List.pairwise_singleton .., fun q hq p' hp' => ?_⟩
      obtain ⟨hmem, hsame⟩ := mem_of_onChannel hq
      rw [List.mem_singleton.1 hp', hplaces.begins_eq, hch, ← hsame]
      exact h.ends_le q hmem
    · rw [if_neg hch]
      exact h.apart ch
  gapless ch := by
    rw [onChannel_concat]
    by_cases hch : p.pulse.channel = ch
    · rw [if_pos hch, List.isChain_append]
      refine ⟨h.gapless ch, .singleton _, fun q hq p' hp' hsame => ?_⟩
      obtain rfl : p = p' := by simpa using hp'
      rw [hplaces.before] at hsame
      rw [hplaces.begins_eq, hch]
      exact (h.last_ends ch q hq hsame).symm
    · rw [if_neg hch]
      exact h.gapless ch
  drawn := List.forall_mem_append.2 ⟨h.drawn, List.forall_mem_singleton.2 hplaces.drawn⟩

/-- **All calls**, those that fail included. -/
theorem placements (h : Placed ps s) (hmap : map.Sound) {calls : List Call}
    (hauto : ∀ call ∈ calls, call.Auto) (hextras : ∀ extra, .syncAll extra ∈ calls → 0 ≤ extra) :
    ∃ s', Placed (ps ++ s.placements map calls) s' := by
  induction calls generalizing s ps with
  | nil => exact ⟨s, by rwa [Sequencer.placements, List.append_nil]⟩
  | cons call calls ih =>
    rw [List.forall_mem_cons] at hauto
    have hrest {ps : List Placement} {s : Sequencer} (h : Placed ps s) :=
      ih h hauto.2 fun extra hextra => hextras extra (List.mem_cons_of_mem _ hextra)
    rw [Sequencer.placements, InPlace.outcome_perform]
    rcases hperform : s.perform map call with e | ⟨s', start?⟩
    · -- The sequencer is as it was.
      exact hrest h
    · show ∃ last, Placed (ps ++ ((placement? call s.program s'.program (.ok start?)).toList ++
        s'.placements map calls)) last
      rw [← List.append_assoc]
      rcases perform_places hmap h.nonneg hauto.1 (fun extra hextra => hextras extra
        (by simp [hextra])) hperform with ⟨hnone, hpasses⟩ | ⟨p, hp, hplaces⟩
      · rw [hnone, Option.toList_none, List.append_nil]
        exact hrest (h.passes hpasses)
      · rw [hp, Option.toList_some]
        exact hrest (h.places hplaces)

end Placed

theorem placed_new (program : Program) : Placed [] { program } where
  nonneg := by simp
  ends_le := by simp
  syncs_le := by simp
  last_ends := by simp [onChannel]
  apart _ := .nil
  gapless _ := .nil
  drawn := by simp

/-- **Automatic placement never overlaps.**  Let the calls of a caller leave all starts to the
sequencer and move no sync point backwards; they may fail.  On each channel the pulses that have
been scheduled lie one behind the other, in the order of the calls; where the time offset has not
been moved on between two that follow each other, the second begins as the first ends.  The segments
of a flat-top pulse tile its interval. -/
theorem placements_tile {registers : RegisterMap} {calls : List Call}
    (hmap : ChannelMap.ofRegisterMap registers = .ok map) (hauto : ∀ call ∈ calls, call.Auto)
    (hextras : ∀ extra, .syncAll extra ∈ calls → 0 ≤ extra) (program : Program) :
    let ps := placements map { program } calls
    (∀ p ∈ ps, p.begins ≤ p.ends ∧ p.Tiled) ∧
    ∀ ch, ((onChannel ch ps).Pairwise fun p q => p.ends ≤ q.begins) ∧
      (onChannel ch ps).IsChain fun p q => q.before.syncs = p.after.syncs → q.begins = p.ends := by
  obtain ⟨s, hplaced⟩ := (placed_new program).placements
    (ChannelMap.sound_of_ofRegisterMap hmap) hauto hextras
  rw [List.nil_append] at hplaced
  exact ⟨fun p hp => ⟨p.begins_le_ends, (hplaced.drawn p hp).tiled⟩,
    fun ch => ⟨hplaced.apart ch, hplaced.gapless ch⟩⟩

/-- A flat-top pulse. -/
def drive : Pulse :=
  { channel := 2, name := "drive", style := .flatTop 9, freq := 7, phase := 5, gain := 100,
    addr := 16, length := 20 }

/-- Two channels.  The second pulse on channel 1 asks for too much gain, and is not played; a wait
behind all pulses is split into two steps, and the last `syncAll` has nothing to move. -/
def mixedCalls : List Call :=
  [.measure (tone 1 50) [0] 3 .auto, .pulse { tone 1 99 with gain := 65536 } .auto,
    .pulse drive .auto, .play (tone 1 20) .auto, .delay 20000, .pulse drive .auto,
    .pulse (tone 1 10) .auto, .syncAll 5, .syncAll 0, .pulse drive .auto, .pulse drive .auto]

theorem placements_tile_mixedCalls : ∃ map,
    ChannelMap.ofRegisterMap RegisterMap.standard = .ok map ∧
    let ps := placements map {} mixedCalls
    ps.map (fun p => (p.pulse.channel, p.begins, p.ends, p.before.syncs)) =
      [(1, 0, 50, 0), (2, 0, 28, 0), (1, 50, 70, 0), (2, 20070, 20098, 3), (1, 20070, 20080, 3),
        (2, 20103, 20131, 4), (2, 20131, 20159, 4)] ∧
    ∀ p ∈ ps, p.begins ≤ p.ends ∧ p.Tiled := by
  obtain ⟨map, hmap, -⟩ : ∃ map, ChannelMap.ofRegisterMap RegisterMap.standard = .ok map ∧ True :=
    exists_ok (by decide +kernel)
  have hauto : ∀ call ∈ mixedCalls, call.Auto := by simp [mixedCalls, Call.Auto]
  have htile := placements_tile hmap hauto (by simp [mixedCalls]) {}
  refine ⟨map, hmap, ?_, htile.1⟩
  rw [ChannelMap.eq_of_ofRegisterMap hmap]
  decide +kernel

end Sequencer
end PulseProcessor
