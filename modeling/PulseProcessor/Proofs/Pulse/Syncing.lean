import PulseProcessor.Proofs.Pulse.Calls

/-! # Sync points

`Sequencer.syncAll` moves the sync point behind the pulses that the sequencer remembers, and of each
channel it remembers the last one.  So the time offset of the emulator is then past the end of every
pulse that has been scheduled, except for those whose channel has later got a pulse that ends
earlier (`Sequencer.syncAll_covers`).

A sequencer writes straight code.  As long as its steps of the time offset fit the immediates, the
emulator's time offset at the end of it is their sum (`Program.waited`), and of a pulse that is
scheduled after a program the start counts from there.
-/

namespace PulseProcessor

open Machine (Passage)

/-! ### Time in straight code -/

namespace Instruction

/-- The cycles by which an instruction moves the time offset on. -/
def cycles : Instruction → Int
  | .synci t => t
  | _ => 0

theorem OfPulse.cycles_eq {i : Instruction} (h : i.OfPulse) : i.cycles = 0 := by
  cases h <;> rfl

end Instruction

namespace Program

open Instruction (OfPulse OfSequencer)

variable {p q : Program} {ws : List Word} {i : Instruction} {m : Machine} {pc : Nat}

/-- The cycles by which a program moves the time offset on, if control goes through all of it. -/
def waited (p : Program) : Int := (p.instructions.map (·.cycles)).sum

theorem instructions_append (p : Program) (i : Instruction) (comment : Option String) :
    (p.append i comment).instructions = p.instructions ++ [i] := by
  simp [instructions, append]

theorem waited_append (p : Program) (i : Instruction) (comment : Option String) :
    (p.append i comment).waited = p.waited + i.cycles := by
  simp [waited, instructions_append]

theorem waited_foldl_synci (p : Program) (steps : List Int) :
    (steps.foldl (fun p t => p.append (.synci t)) p).waited = p.waited + steps.sum := by
  induction steps generalizing p with
  | nil => simp
  | cons t steps ih =>
    rw [List.foldl_cons, ih, waited_append, List.sum_cons, Int.add_assoc]
    rfl

namespace Writes

/-- Pulses take no time. -/
theorem waited_eq (h : Writes OfPulse p q) : q.waited = p.waited := by
  induction h with
  | refl => rfl
  | append _ hi comment ih => rw [waited_append, ih, hi.cycles_eq, Int.add_zero]

theorem mem {P : Instruction → Prop} (h : Writes P p q) (hi : i ∈ q.instructions) :
    i ∈ p.instructions ∨ P i := by
  induction h with
  | refl => exact .inl hi
  | append _ hj comment ih =>
    rw [instructions_append, List.mem_append, List.mem_singleton] at hi
    rcases hi with hi | rfl
    · exact ih hi
    · exact .inr hj

end Writes

/-- **One instruction of a sequencer**: control goes on, and the time offset moves by its cycles. -/
theorem At.next?_ofSequencer (hq : q.encode = .ok ws) (h : q.At pc i) (hi : i.OfSequencer)
    (hnarrow : ∀ t, i = .synci t → Isa.Narrow t) (hrun : m.halted = false) :
    ∃ m' : Machine, (m.goto pc).next? ws.toArray = some (m'.goto (pc + 1)) ∧
      m'.halted = false ∧ m'.timeOffset = m.timeOffset + i.cycles := by
  have hput (r : Register) (v : UInt32) : (m.put r v).halted = false ∧
      (m.put r v).timeOffset = m.timeOffset + 0 := by simp [hrun]
  cases hi with
  | synci t =>
    have hnext := h.next?_synci hq hrun
    rw [(hnarrow t rfl).bmod] at hnext
    exact ⟨_, hnext, hrun, rfl⟩
  | pulse hi =>
    cases hi with
    | regwi page reg v => exact ⟨_, h.next?_regwi (r := ⟨page, reg⟩) hq hrun, hput _ _⟩
    | bitwi page reg v => exact ⟨_, h.next?_bitwi (r := ⟨page, reg⟩) hq hrun rfl, hput _ _⟩
    | mathi page reg v => exact ⟨_, h.next?_mathi (r := ⟨page, reg⟩) hq hrun, hput _ _⟩
    | set => exact ⟨_, h.next?_set hq hrun, hrun, (Int.add_zero _).symm⟩
    | seti channel page reg t =>
      exact ⟨_, h.next?_seti (r := ⟨page, reg⟩) hq hrun, hrun, (Int.add_zero _).symm⟩

section
variable (hq : q.encode = .ok ws) (hcode : ∀ i ∈ q.instructions, i.OfSequencer)
  (hnarrow : ∀ t, .synci t ∈ q.instructions → Isa.Narrow t)

include hq hcode hnarrow

/-- **Control goes through the code of a sequencer**, and the time offset counts its cycles. -/
theorem passage_ofSequencer {n : Nat} (hn : n ≤ q.size) :
    ∃ m ms, Passage ws.toArray {} 0 m n ms ∧ m.halted = false ∧
      m.timeOffset = ((q.instructions.take n).map (·.cycles)).sum := by
  induction n with
  | zero => exact ⟨{}, [], .refl _ 0, rfl, rfl⟩
  | succ n ih =>
    obtain ⟨m, ms, hms, hrun, hoffset⟩ := ih (Nat.le_of_succ_le hn)
    have hlt : n < q.instructions.length := by rwa [length_instructions]
    have hat : q.At n q.instructions[n] := at_iff.2 (List.getElem?_eq_getElem hlt)
    have hmem : q.instructions[n] ∈ q.instructions := List.getElem_mem hlt
    obtain ⟨m', hnext, hrun', hoffset'⟩ :=
      hat.next?_ofSequencer hq (hcode _ hmem) (fun t ht => hnarrow t (ht ▸ hmem)) hrun
    refine ⟨m', _, hms.trans (.single hnext), hrun', ?_⟩
    rw [hoffset', hoffset, List.take_add_one, List.getElem?_eq_getElem hlt, Option.toList_some,
      List.map_append, List.sum_append, List.map_singleton, List.sum_singleton]

/-- **The emulator gets to the end of the code**, where it finds no further instruction. -/
theorem run_ofSequencer : ∃ n m, m.timeOffset = q.waited ∧ ∀ limit > n,
    (Emulator.ofWords ws limit).run = (.error (.pcOutOfRange q.size),
      { Emulator.ofWords ws limit with machine := m, steps := n }) := by
  obtain ⟨m, ms, hms, hrun, hoffset⟩ := passage_ofSequencer hq hcode hnarrow (Nat.le_refl q.size)
  rw [← length_instructions, List.take_length] at hoffset
  refine ⟨ms.length, m.goto q.size, hoffset, fun limit hlimit => ?_⟩
  have hpast : ws.toArray[q.size]? = none := by
    rw [List.getElem?_toArray, List.getElem?_eq_none (Nat.le_of_eq (length_encode hq))]
  have hresult := Emulator.run_of_executes_past (e := Emulator.ofWords ws limit) hms.executes hrun
    hpast (by simpa [Emulator.ofWords] using hlimit)
  simpa [Emulator.ofWords] using hresult

end
end Program

/-! ### Pulses that have been scheduled -/

namespace Sequencer

open Instruction (OfPulse OfSequencer)
open Program (Writes)

/-- The pulse that a call schedules. -/
def Call.pulse? : Call → Option Pulse
  | .play p _ | .pulse p _ | .measure p .. => some p
  | _ => none

/-- A pulse that has been scheduled: its channel, and when it ends in absolute time. -/
structure Booking where
  channel : UInt8
  ends : Int
  deriving DecidableEq, Repr

/-- What a call has scheduled that answers with a start time.  That counts from the sync point. -/
def booking? (s : Sequencer) (call : Call) (start? : Option Int) : Option Booking := do
  let pulse ← call.pulse?
  let start ← start?
  return ⟨pulse.channel, s.program.waited + start + pulse.duration⟩

/-- All that calls schedule, up to the first that fails. -/
def bookings (map : ChannelMap) (s : Sequencer) : List Call → List Booking
  | [] => []
  | call :: calls =>
    match s.perform map call with
    | .ok (s', start?) => (s.booking? call start?).toList ++ s'.bookings map calls
    | .error _ => []

/-- The last of the bookings of a channel. -/
def latest (ch : UInt8) (bs : List Booking) : Option Booking :=
  (bs.filter (·.channel = ch)).getLast?

variable {map : ChannelMap} {s s' : Sequencer} {pulse : Pulse} {bs : List Booking}
  {calls : List Call} {t extra : Int} {ws : List Word}

theorem latest_concat (ch : UInt8) (bs : List Booking) (b : Booking) :
    latest ch (bs ++ [b]) = if b.channel = ch then some b else latest ch bs := by
  unfold latest
  by_cases hb : b.channel = ch
  · simp [hb]
  · simp [hb]

/-! ### What a sequencer remembers -/

/-- **A sequencer remembers the last booking of each channel**: it has ended when the channel is
free. -/
structure Remembers (bs : List Booking) (s : Sequencer) : Prop where
  nonneg : ∀ x ∈ s.timestamps, 0 ≤ x.2
  ends_le : ∀ ch, ∀ b ∈ latest ch bs, b.ends ≤ s.program.waited + s.timestamp ch

theorem nonneg_timestamp (h : ∀ x ∈ s.timestamps, 0 ≤ x.2) (ch : UInt8) :
    0 ≤ s.timestamp ch := by
  rcases s.timestamp_eq_zero_or_mem ch with hzero | ⟨x, hx, heq⟩
  · omega
  · rw [heq]
    exact h x hx

/-- **A sync point is moved past the times at which the channels are free.** -/
theorem le_waited_syncAll (h : ∀ x ∈ s.timestamps, 0 ≤ x.2) (hextra : 0 ≤ extra) (ch : UInt8) :
    s.program.waited + s.timestamp ch ≤ (s.syncAll extra).program.waited := by
  have hlast := timestamp_le_lastEnd h ch
  have hnonneg := nonneg_timestamp h ch
  rw [syncAll_eq]
  by_cases hpos : s.lastEnd + extra > 0
  · rw [if_pos hpos, Program.waited_append]
    show _ ≤ s.program.waited + (s.lastEnd + extra)
    omega
  · rw [if_neg hpos]
    omega

theorem timestamps_syncAll (s : Sequencer) (extra : Int) :
    (s.syncAll extra).timestamps = [] ∨ (s.syncAll extra).timestamps = s.timestamps := by
  rw [syncAll_eq]
  by_cases hpos : s.lastEnd + extra > 0
  · rw [if_pos hpos]
    exact .inl rfl
  · rw [if_neg hpos]
    exact .inr rfl

namespace Remembers

theorem of_syncAll (h : Remembers bs s) (hextra : 0 ≤ extra) : Remembers bs (s.syncAll extra) := by
  have hnonneg : ∀ x ∈ (s.syncAll extra).timestamps, 0 ≤ x.2 := by
    rcases s.timestamps_syncAll extra with hnil | hsame
    · simp [hnil]
    · rw [hsame]
      exact h.nonneg
  refine ⟨hnonneg, fun ch b hb => ?_⟩
  have hends := h.ends_le ch b hb
  have hmoved := le_waited_syncAll h.nonneg hextra ch
  have hfree := nonneg_timestamp hnonneg ch
  omega

theorem of_delay (h : Remembers bs s) (cycles : Int) : Remembers bs (s.delay cycles) := by
  have hsync := h.of_syncAll (Int.le_refl 0)
  refine ⟨hsync.nonneg, fun ch b hb => ?_⟩
  have hends := hsync.ends_le ch b hb
  show b.ends ≤ Program.waited ((delaySteps cycles).foldl _ _) + (s.syncAll 0).timestamp ch
  rw [Program.waited_foldl_synci, Timeline.sum_delaySteps]
  omega

/-- Code of pulses alone changes nothing. -/
theorem of_writes (h : Remembers bs s) (hwrites : Writes OfPulse s.program s'.program)
    (htimestamps : s'.timestamps = s.timestamps) : Remembers bs s' where
  nonneg := htimestamps ▸ h.nonneg
  ends_le ch b hb := by
    rw [hwrites.waited_eq, timestamp, htimestamps]
    exact h.ends_le ch b hb

theorem of_setup (h : Remembers bs s) (hsetup : s.setup map pulse = .ok s') : Remembers bs s' := by
  have hwrites := writes_setup hsetup
  obtain ⟨p, -, hsetup⟩ := bind_eq_ok_iff.1 hsetup
  cases hsetup
  exact h.of_writes hwrites rfl

theorem of_trigger (h : Remembers bs s) {readouts markers : List UInt8} {width : Int}
    (htrigger : s.trigger readouts markers t width = .ok s') : Remembers bs s' := by
  have hwrites := writes_trigger htrigger
  obtain ⟨p, -, htrigger⟩ := bind_eq_ok_iff.1 htrigger
  cases htrigger
  exact h.of_writes hwrites rfl

/-- **Of the channel of a new pulse the sequencer remembers that one.** -/
theorem of_play (h : Remembers bs s) {start : Start}
    (hplay : s.play map pulse start = .ok (s', t)) :
    Remembers (bs ++ [⟨pulse.channel, s.program.waited + t + pulse.duration⟩]) s' := by
  have hwaited := (writes_play hplay).waited_eq
  obtain ⟨p, hp, hplay⟩ := bind_eq_ok_iff.1 hplay
  cases hplay
  have hstart := Timeline.nonneg_of_emitPlay hp
  have hduration := Timeline.Playable.duration_nonneg pulse
  constructor
  · rintro x (_ | ⟨_, hx⟩)
    · exact Int.add_nonneg hstart hduration
    · exact h.nonneg x (List.mem_filter.1 hx).1
  · intro ch b hb
    rw [hwaited, Timeline.timestamp_setTimestamp]
    rw [latest_concat] at hb
    by_cases hch : pulse.channel = ch
    · rw [if_pos hch] at hb
      rw [if_pos hch.symm]
      cases hb
      exact Int.le_of_eq (Int.add_assoc ..)
    · rw [if_neg hch] at hb
      rw [if_neg (Ne.symm hch)]
      exact h.ends_le ch b hb

theorem of_pulse (h : Remembers bs s) {pulse : Pulse} {start : Start}
    (hpulse : s.pulse map pulse start = .ok (s', t)) :
    Remembers (bs ++ [⟨pulse.channel, s.program.waited + t + pulse.duration⟩]) s' := by
  obtain ⟨s₁, hsetup, hplay⟩ := bind_eq_ok_iff.1 hpulse
  rw [← (writes_setup hsetup).waited_eq]
  exact (h.of_setup hsetup).of_play hplay

theorem of_measure (h : Remembers bs s) {readouts : List UInt8} {offset : Int} {start : Start}
    (hmeasure : s.measure map pulse readouts offset start = .ok (s', t)) :
    Remembers (bs ++ [⟨pulse.channel, s.program.waited + t + pulse.duration⟩]) s' := by
  obtain ⟨s₁, htrigger, hpulse⟩ := bind_eq_ok_iff.1 hmeasure
  rw [← (writes_trigger htrigger).waited_eq]
  exact (h.of_trigger htrigger).of_pulse hpulse

/-- **Each call.** -/
theorem perform (h : Remembers bs s) {call : Call} {start? : Option Int}
    (hextra : ∀ extra, call = .syncAll extra → 0 ≤ extra)
    (hperform : s.perform map call = .ok (s', start?)) :
    Remembers (bs ++ (s.booking? call start?).toList) s' := by
  cases call with
  | setup pulse =>
    obtain ⟨s₁, hs₁, hperform⟩ := bind_eq_ok_iff.1 hperform
    cases hperform
    simpa [booking?, Call.pulse?] using h.of_setup hs₁
  | play pulse start =>
    obtain ⟨⟨s₁, t⟩, hs₁, heq⟩ := map_eq_ok_iff.1 hperform
    cases heq
    exact h.of_play hs₁
  | pulse pulse start =>
    obtain ⟨⟨s₁, t⟩, hs₁, heq⟩ := map_eq_ok_iff.1 hperform
    cases heq
    exact h.of_pulse hs₁
  | measure pulse readouts offset start =>
    obtain ⟨⟨s₁, t⟩, hs₁, heq⟩ := map_eq_ok_iff.1 hperform
    cases heq
    exact h.of_measure hs₁
  | trigger readouts markers t width =>
    obtain ⟨s₁, hs₁, hperform⟩ := bind_eq_ok_iff.1 hperform
    cases hperform
    simpa [booking?, Call.pulse?] using h.of_trigger hs₁
  | syncAll extra =>
    cases hperform
    simpa [booking?, Call.pulse?] using h.of_syncAll (hextra extra rfl)
  | delay cycles =>
    cases hperform
    simpa [booking?, Call.pulse?] using h.of_delay cycles

/-- **All calls.** -/
theorem performAll (h : Remembers bs s) (hextras : ∀ extra, .syncAll extra ∈ calls → 0 ≤ extra)
    (hcalls : s.performAll map calls = .ok s') : Remembers (bs ++ s.bookings map calls) s' := by
  induction calls generalizing s bs with
  | nil =>
    cases hcalls
    simpa [bookings] using h
  | cons call calls ih =>
    obtain ⟨s₁, hs₁, hcalls⟩ := bind_eq_ok_iff.1 hcalls
    obtain ⟨⟨s₂, start?⟩, hperform, rfl⟩ := map_eq_ok_iff.1 hs₁
    have hfirst := h.perform (fun extra hextra => hextras extra (by simp [hextra])) hperform
    have hrest := ih hfirst (fun extra hextra => hextras extra (List.mem_cons_of_mem _ hextra))
      hcalls
    rw [bookings, hperform]
    rwa [List.append_assoc] at hrest

end Remembers

/-! ### Behind a sync point -/

theorem remembers_new : Remembers [] {} := ⟨by simp, by simp [latest]⟩

/-- **`syncAll` moves the sync point past what the sequencer remembers.**  Let calls succeed, none
of which moves a sync point backwards, and after them `syncAll`, all with sums of 64 bits.  If the
program can be encoded then, and its steps of the time offset fit the immediates, the emulator runs
through it.  Its time
offset in the end is the sum of these steps, and no pulse ends later that has been scheduled,
provided that the last pulse of its channel does not end earlier than it does. -/
theorem syncAll_covers (hcalls : performAll map {} calls = .ok s)
    (hextras : ∀ extra, .syncAll extra ∈ calls → 0 ≤ extra) (hextra : 0 ≤ extra)
    (_hsums : SumsFit map {} (calls ++ [.syncAll extra]))
    (hws : (s.syncAll extra).program.encode = .ok ws)
    (hnarrow : ∀ t, .synci t ∈ (s.syncAll extra).program.instructions → Isa.Narrow t) :
    ∃ n m, (∀ limit > n, (Emulator.ofWords ws limit).run =
        (.error (.pcOutOfRange (s.syncAll extra).program.size),
          { Emulator.ofWords ws limit with machine := m, steps := n })) ∧
      m.timeOffset = (s.syncAll extra).program.waited ∧
      ∀ b ∈ bookings map {} calls,
        (∀ l ∈ latest b.channel (bookings map {} calls), b.ends ≤ l.ends) →
          b.ends ≤ m.timeOffset := by
  have hwrites := (Timeline.writes_performAll hcalls).trans (s.writes_syncAll extra)
  have hcode : ∀ i ∈ (s.syncAll extra).program.instructions, i.OfSequencer := fun i hi =>
    (hwrites.mem hi).resolve_left (by simp [Program.instructions])
  obtain ⟨n, m, hoffset, hrun⟩ := Program.run_ofSequencer hws hcode hnarrow
  have hremembers := remembers_new.performAll hextras hcalls
  rw [List.nil_append] at hremembers
  refine ⟨n, m, hrun, hoffset, fun b hb hlatest => ?_⟩
  -- The channel of the booking has a last one.
  have hmem : b ∈ (bookings map {} calls).filter (·.channel = b.channel) :=
    List.mem_filter.2 ⟨hb, by simp⟩
  obtain ⟨l, hl⟩ : ∃ l, latest b.channel (bookings map {} calls) = some l :=
    ⟨_, List.getLast?_eq_some_getLast (List.ne_nil_of_mem hmem)⟩
  have hends := hremembers.ends_le b.channel l hl
  have hmoved := le_waited_syncAll hremembers.nonneg hextra b.channel
  have hle := hlatest l hl
  rw [hoffset]
  omega

/-- A pulse of a given length. -/
def tone (channel : UInt8) (length : UInt32) : Pulse :=
  { channel, name := "tone", style := .constant, freq := 100, phase := 0, gain := 1000, length }

/-- Two channels, starts that are given and starts that are not, and two sync points before the
last one. -/
def twoTones : List Call :=
  [.pulse (tone 1 100) (.at 1000), .measure (tone 2 60) [0] 3 (.at 40), .play (tone 1 20) .auto,
    .delay 20000, .pulse (tone 2 60) .auto, .syncAll 5, .setup (tone 1 10), .play (tone 1 10) .auto]

theorem syncAll_covers_twoTones : ∃ map s ws n m,
    ChannelMap.ofRegisterMap RegisterMap.standard = .ok map ∧ performAll map {} twoTones = .ok s ∧
    SumsFit map {} (twoTones ++ [.syncAll 7]) ∧ (s.syncAll 7).program.encode = .ok ws ∧
    bookings map {} twoTones = [⟨1, 1100⟩, ⟨2, 100⟩, ⟨1, 1120⟩, ⟨2, 21180⟩, ⟨1, 21195⟩] ∧
    (∀ limit > n, (Emulator.ofWords ws limit).run =
      (.error (.pcOutOfRange (s.syncAll 7).program.size),
        { Emulator.ofWords ws limit with machine := m, steps := n })) ∧
    m.timeOffset = (s.syncAll 7).program.waited ∧
    ∀ b ∈ bookings map {} twoTones, b.ends ≤ m.timeOffset := by
  obtain ⟨map, hmap, -⟩ : ∃ map, ChannelMap.ofRegisterMap RegisterMap.standard = .ok map ∧ True :=
    exists_ok (by decide +kernel)
  obtain ⟨s, hcalls, hsums, hbookings, hnarrow, hencode⟩ : ∃ s,
      performAll map {} twoTones = .ok s ∧ SumsFit map {} (twoTones ++ [.syncAll 7]) ∧
      bookings map {} twoTones = [⟨1, 1100⟩, ⟨2, 100⟩, ⟨1, 1120⟩, ⟨2, 21180⟩, ⟨1, 21195⟩] ∧
      (∀ i ∈ (s.syncAll 7).program.instructions, ∀ t ∈ i.immediateTime?, Isa.Narrow t) ∧
        ∃ ws ∈ (s.syncAll 7).program.encode.toOption, True := by
    rw [ChannelMap.eq_of_ofRegisterMap hmap]
    exact exists_ok (by decide +kernel)
  obtain ⟨ws, hws, -⟩ := exists_ok hencode
  obtain ⟨n, m, hrun, hoffset, hcovers⟩ :=
    syncAll_covers hcalls (by simp [twoTones]) (by decide) hsums hws
      fun t ht => hnarrow _ ht t rfl
  refine ⟨map, s, ws, n, m, hmap, hcalls, hsums, hws, hbookings, hrun, hoffset, fun b hb => ?_⟩
  refine hcovers b hb ?_
  rw [hbookings] at hb ⊢
  revert b
  decide

/-- After calls and a last `syncAll` the emulator gets through the program, and its time offset is
in front of the end of a pulse that has been scheduled. -/
def LeavesBehind (map : ChannelMap) (calls : List Call) (extra : Int) (b : Booking)
    (offset : Int) : Prop :=
  ∃ s ws n m, performAll map {} calls = .ok s ∧ (s.syncAll extra).program.encode = .ok ws ∧
    b ∈ bookings map {} calls ∧ (∀ limit > n, (Emulator.ofWords ws limit).run =
      (.error (.pcOutOfRange (s.syncAll extra).program.size),
        { Emulator.ofWords ws limit with machine := m, steps := n })) ∧
    m.timeOffset = offset ∧ offset < b.ends

theorem leavesBehind_of_after? {b : Booking} {offset : Int} (n : Nat)
    (h : ∃ s ∈ (performAll map {} calls).toOption, b ∈ bookings map {} calls ∧
      ∃ ws ∈ (s.syncAll extra).program.encode.toOption, ∃ m ∈ Machine.after? ws.toArray n {},
        m.halted = false ∧ m.pc = (s.syncAll extra).program.size ∧ m.timeOffset = offset)
    (hoffset : offset < b.ends) : LeavesBehind map calls extra b offset := by
  obtain ⟨s, hcalls, hb, hencode⟩ := exists_ok h
  obtain ⟨ws, hws, m, hm, hrun, hpc, htime⟩ := exists_ok hencode
  refine ⟨s, ws, n, m, hcalls, hws, hb, fun limit hlimit => ?_, htime, hoffset⟩
  have hpast : ws[m.pc]? = none := by
    rw [hpc]
    exact List.getElem?_eq_none (Nat.le_of_eq (Program.length_encode hws))
  rw [← hpc]
  exact Emulator.run_of_after? hm hrun hpast hlimit

/-- **A pulse may be left behind.**  One is followed on its channel by a pulse that starts earlier,
and the sync point is moved past that one only.  Another one ends so late that the step to its end
is read as a negative number. -/
theorem syncAll_leavesBehind : ∃ map, ChannelMap.ofRegisterMap RegisterMap.standard = .ok map ∧
    LeavesBehind map [.pulse (tone 1 100) (.at 1000), .pulse (tone 1 10) (.at 0)] 0 ⟨1, 1100⟩ 10 ∧
    LeavesBehind map [.pulse (tone 1 10) (.at 1073741824)] 0 ⟨1, 1073741834⟩ (-1073741814) := by
  obtain ⟨map, hmap, -⟩ : ∃ map, ChannelMap.ofRegisterMap RegisterMap.standard = .ok map ∧ True :=
    exists_ok (by decide +kernel)
  refine ⟨map, hmap, leavesBehind_of_after? 15 ?_ (by decide),
    leavesBehind_of_after? 9 ?_ (by decide)⟩
  · rw [ChannelMap.eq_of_ofRegisterMap hmap]
    decide +kernel
  · rw [ChannelMap.eq_of_ofRegisterMap hmap]
    decide +kernel

end Sequencer
end PulseProcessor
