import PulseProcessor.Proofs.Emulator.Realising
import PulseProcessor.Proofs.Interpreter
import PulseProcessor.Proofs.Pulse.Playing

/-! # Pulses as they are written

The code of a pulse is straight, so it can be read off its statements what it does, from any state
and whether or not it can be encoded.  An update puts a mode word in effect, and its length says for
how many cycles (`Event.span?`).  Code draws spans on a channel if these are those of the updates it
makes there (`Program.Draws`): loads and triggers draw nothing, and the segments of a pulse draw
spans one behind the other (`Program.Draws.of_emitSegments`).
-/

namespace PulseProcessor

open Interpreter (State)

/-! ### Straight code -/

namespace Interpreter.State

variable {q : Program} {s s' s'' : State} {r r' : Register} {v v' : UInt32}

/-- Instructions, one after the other, as statements of `q`. -/
def executeAll (q : Program) (s : State) (code : List Instruction) : Except EmulatorError State :=
  code.foldlM (fun s i => s.execute q i) s

def get (s : State) (r : Register) : UInt32 := s.read r.page r.number

theorem get_write (hr : r.Valid) (hr' : r'.Valid) :
    (s.write r.page r.number v).next.get r' = if r = r' then v else s.get r' := by
  have hzero : (Fin.ofNat 32 r'.number.toNat : Fin 32) ≠ 0 := fun h => by
    rw [Fin.ext_iff, Fin.val_ofNat, Nat.mod_eq_of_lt hr'.number_lt] at h
    exact hr'.toNat_number_ne h
  have hsame : (Fin.ofNat 8 r'.page.toNat = Fin.ofNat 8 r.page.toNat ∧
      Fin.ofNat 32 r'.number.toNat = Fin.ofNat 32 r.number.toNat) ↔ r = r' := by
    rw [Fin.ext_iff, Fin.ext_iff, Fin.val_ofNat, Fin.val_ofNat, Fin.val_ofNat, Fin.val_ofNat,
      Nat.mod_eq_of_lt hr.page_lt, Nat.mod_eq_of_lt hr'.page_lt, Nat.mod_eq_of_lt hr.number_lt,
      Nat.mod_eq_of_lt hr'.number_lt, ← Register.eq_iff_toNat]
    exact eq_comm
  show (if Fin.ofNat 32 r'.number.toNat = 0 then 0 else if _ then v else _) =
    if _ then v else if _ then 0 else _
  rw [if_neg hzero, if_neg hzero]
  exact if_congr hsame rfl rfl

/-- **A register gets a value**, and nothing else changes that can be seen. -/
structure Loads (r : Register) (v : UInt32) (s s' : State) : Prop where
  value : s'.get r = v
  others : ∀ {r'}, r'.Valid → r ≠ r' → s'.get r' = s.get r'
  time : s'.time = s.time
  events : s'.events = s.events

theorem loads_write (hr : r.Valid) (v : UInt32) (s : State) :
    Loads r v s (s.write r.page r.number v).next where
  value := (get_write hr hr).trans (if_pos rfl)
  others hr' hne := (get_write hr hr').trans (if_neg hne)
  time := rfl
  events := rfl

/-- Of two values the second one stays. -/
theorem Loads.trans (h : Loads r v s s') (h' : Loads r v' s' s'') : Loads r v' s s'' where
  value := h'.value
  others hr' hne := (h'.others hr' hne).trans (h.others hr' hne)
  time := h'.time.trans h.time
  events := h'.events.trans h.events

end Interpreter.State

/-! ### Spans -/

namespace Event

/-- From the time of an update on a channel, as many cycles as its mode word says. -/
def span? (ch : UInt8) : Event → Option (Int × Int)
  | .set ch' t _ _ _ _ mode =>
    if ch' = ch then some (t, t + (mode.toNat % maxLength : Nat)) else none
  | .seti .. => none

/-- The spans of the updates on a channel. -/
def spans (ch : UInt8) (events : List Event) : List (Int × Int) := events.filterMap (span? ch)

/-- Spans of given lengths, one behind the other. -/
def spansFrom (t : Int) : List Nat → List (Int × Int)
  | [] => []
  | length :: lengths => (t, t + length) :: spansFrom (t + length) lengths

end Event

namespace Program

variable {p p' p'' q : Program} {s s' s'' : State} {r : Register} {v : Int} {i : Instruction}

/-- **What has been added to `p` takes one state to another**, as statements of `q`. -/
def Takes (q p : Program) (s : State) (p' : Program) (s' : State) : Prop :=
  ∃ code, p.Emits code p' ∧ s.executeAll q code = .ok s'

namespace Takes

theorem refl (q p : Program) (s : State) : Takes q p s p s := ⟨[], .refl p, rfl⟩

theorem trans (h : Takes q p s p' s') (h' : Takes q p' s' p'' s'') : Takes q p s p'' s'' := by
  obtain ⟨code, hemits, hs⟩ := h
  obtain ⟨code', hemits', hs'⟩ := h'
  refine ⟨code ++ code', hemits.trans hemits', ?_⟩
  rw [State.executeAll, List.foldlM_append]
  exact bind_eq_ok_iff.2 ⟨s', hs, hs'⟩

theorem of_append (h : s.execute q i = .ok s') (comment : Option String) :
    Takes q p s (p.append i comment) s' :=
  ⟨[i], .of_append .., bind_eq_ok_iff.2 ⟨s', h, rfl⟩⟩

/-- One instruction that writes a register. -/
theorem of_append_write (hr : r.Valid) {w : UInt32}
    (h : s.execute q i = .ok (s.write r.page r.number w).next) (comment : Option String) :
    ∃ s', Takes q p s (p.append i comment) s' ∧ s.Loads r w s' :=
  ⟨_, of_append h comment, State.loads_write hr w s⟩

/-- **A constant is loaded as it is**, in however many instructions. -/
theorem of_loadConstant (hr : r.Valid) (comment : Option String) (s : State) :
    ∃ s', Takes q p s (p.loadConstant r.page r.number v comment) s' ∧
      s.Loads r (.ofInt v) s' := by
  unfold loadConstant
  by_cases hsmall : v.natAbs < 1 <<< 30
  · rw [if_pos hsmall]
    exact of_append_write hr rfl comment
  rw [if_neg hsmall]
  dsimp only
  -- The upper bits are loaded and put in their place.
  obtain ⟨s₁, htakes, hupper⟩ := of_append_write (q := q) (w := .ofInt (v / 4)) (p := p) (s := s)
    (i := .regwi r.page r.number (v / 4)) hr rfl comment
  obtain ⟨s₂, htakes', hshifted⟩ := of_append_write (q := q) (w := s₁.get r <<< 2)
    (p := p.append (.regwi r.page r.number (v / 4)) comment)
    (i := .bitwi r.page r.number r.number (.known .shl) 2) hr rfl none
  have hboth := hupper.trans hshifted
  rw [hupper.value] at hboth
  have hvalue : (UInt32.ofInt (v / 4) <<< 2) + .ofInt (v % 4) = .ofInt v :=
    ofInt_quarter_of_emod rfl
  by_cases hlow : v % 4 = 0
  · rw [hlow, show UInt32.ofInt 0 = 0 from rfl, UInt32.add_zero] at hvalue
    rw [if_pos hlow]
    exact ⟨s₂, htakes.trans htakes', hvalue ▸ hboth⟩
  · rw [if_neg hlow]
    obtain ⟨s₃, htakes'', hadded⟩ := of_append_write (q := q) (w := s₂.get r + .ofInt (v % 4))
      (p := (p.append (.regwi r.page r.number (v / 4)) comment).append
        (.bitwi r.page r.number r.number (.known .shl) 2))
      (i := .mathi r.page r.number r.number (.known .add) (v % 4)) hr rfl none
    rw [hboth.value, hvalue] at hadded
    exact ⟨s₃, (htakes.trans htakes').trans htakes'', hboth.trans hadded⟩

end Takes

/-! ### Code of a single pulse -/

section
variable {map : ChannelMap} {pulse : Pulse} {t : Int} {name : PulseRegister}

/-- **Writing a parameter**, which is in its register then as it is. -/
theorem takes_writeRegister (hmap : map.Sound)
    (hwrite : Sequencer.writeRegister map pulse p name t = .ok p') (q : Program) (s : State) :
    ∃ s' r, Takes q p s p' s' ∧ map.register pulse.channel name = .ok r ∧
      s.Loads r (.ofInt t) s' ∧ ((UInt32.ofInt t).toNat : Int) = t := by
  obtain ⟨r, comment, hr, hnonneg, hlt, rfl⟩ := Timeline.writeRegister_eq_ok hwrite
  obtain ⟨s', htakes, hloads⟩ := Takes.of_loadConstant (hmap.valid hr) comment s
  have hle := Isa.one_shiftLeft_le (hmap.width_le name)
  exact ⟨s', r, htakes, hr, hloads, by rw [toNat_ofInt, Int.emod_eq_of_lt hnonneg (by omega)]⟩

/-- **An update** puts in effect the mode word that has been written before. -/
theorem takes_emitSet (hmap : map.Sound) (hset : Sequencer.emitSet map pulse p t = .ok p')
    (hmode : map.register pulse.channel .mode = .ok r) (q : Program) (s : State) :
    ∃ s' event, Takes q p s p' s' ∧ s'.time = s.time ∧ s'.events = s.events ++ [event] ∧
      event.span? pulse.channel =
        some (t + s.time, t + s.time + ((s.get r).toNat % maxLength : Nat)) := by
  obtain ⟨written, hwritten, hset⟩ := bind_eq_ok_iff.1 hset
  obtain ⟨page, hpage, hset⟩ := bind_eq_ok_iff.1 hset
  obtain ⟨freq, -, hset⟩ := bind_eq_ok_iff.1 hset
  obtain ⟨phase, -, hset⟩ := bind_eq_ok_iff.1 hset
  obtain ⟨addr, -, hset⟩ := bind_eq_ok_iff.1 hset
  obtain ⟨gain, -, hset⟩ := bind_eq_ok_iff.1 hset
  obtain ⟨mode, hmode', hset⟩ := bind_eq_ok_iff.1 hset
  obtain ⟨time, htime, hset⟩ := bind_eq_ok_iff.1 hset
  obtain rfl := Except.ok.inj hset
  obtain ⟨s₁, r', htakes, hr', hloads, htoNat⟩ := takes_writeRegister hmap hwritten q s
  obtain rfl : r' = ⟨page, time⟩ :=
    Except.ok.inj (hr'.symm.trans (Timeline.register_of_number hpage htime))
  obtain rfl : r = ⟨page, mode⟩ :=
    Except.ok.inj (hmode.symm.trans (Timeline.register_of_number hpage hmode'))
  -- The start time is in its own register.
  have hother : s₁.get ⟨page, mode⟩ = s.get ⟨page, mode⟩ :=
    hloads.others (hmap.valid hmode) fun heq =>
      absurd (hmap.injective hr' (heq ▸ hmode)).2 (by decide)
  let event : Event := .set pulse.channel ((s₁.get ⟨page, time⟩).toNat + s₁.time)
    (s₁.read page freq) (s₁.read page phase) (s₁.read page addr) (s₁.read page gain)
    (s₁.get ⟨page, mode⟩)
  have hupdate : s₁.execute q (.set pulse.channel page freq phase addr gain mode time) =
      .ok (s₁.emit event).next := rfl
  refine ⟨_, event, htakes.trans (.of_append hupdate _), hloads.time, ?_, ?_⟩
  · rw [← hloads.events]
    rfl
  · rw [Event.span?, if_pos rfl, hloads.value, htoNat, hloads.time, hother]

/-- **A segment's length is in the mode word.** -/
theorem takes_emitSegment (hmap : map.Sound) {addr : Int} {length : Nat} {output : OutputSelect}
    (hsegment : Sequencer.emitSegment map pulse p addr length output = .ok p') (q : Program)
    (s : State) :
    ∃ s' r, Takes q p s p' s' ∧ s'.time = s.time ∧ s'.events = s.events ∧
      map.register pulse.channel .mode = .ok r ∧ (s'.get r).toNat % maxLength = length := by
  obtain ⟨mode, hmode, hsegment⟩ := bind_eq_ok_iff.1 hsegment
  obtain ⟨written, hwritten, hsegment⟩ := bind_eq_ok_iff.1 hsegment
  obtain ⟨s₁, _, htakes, -, hloads, -⟩ := takes_writeRegister hmap hwritten q s
  obtain ⟨s₂, r, htakes', hr, hloads', -⟩ := takes_writeRegister hmap hsegment q s₁
  refine ⟨s₂, r, htakes.trans htakes', hloads'.time.trans hloads.time,
    hloads'.events.trans hloads.events, hr, ?_⟩
  have hlength : length < maxLength := by
    unfold Pulse.mode modeWord? at hmode
    by_cases hlength : length < maxLength
    · exact hlength
    · rw [if_neg hlength] at hmode
      contradiction
  rw [show maxLength = 65536 from rfl] at hlength ⊢
  rw [hloads'.value, Timeline.mode_eq_ok hmode, Timeline.modeWord, UInt32.toNat_ofNat']
  omega

end
end Program

/-! ### Spans of code -/

namespace Program

variable {p p' p'' q : Program} {map : ChannelMap} {pulse : Pulse} {ch : UInt8} {t : Int}
  {spans spans' : Int → List (Int × Int)}

/-- **Code that draws spans on a channel**, given the time offset, which it leaves alone. -/
def Draws (q : Program) (ch : UInt8) (p p' : Program) (spans : Int → List (Int × Int)) : Prop :=
  ∀ s : State, ∃ s' events, Takes q p s p' s' ∧ s'.time = s.time ∧
    s'.events = s.events ++ events ∧ Event.spans ch events = spans s.time

namespace Draws

theorem refl (q : Program) (ch : UInt8) (p : Program) : Draws q ch p p fun _ => [] :=
  fun s => ⟨s, [], .refl q p s, rfl, (List.append_nil _).symm, rfl⟩

theorem trans (h : Draws q ch p p' spans) (h' : Draws q ch p' p'' spans') :
    Draws q ch p p'' fun time => spans time ++ spans' time := by
  intro s
  obtain ⟨s₁, events, htakes, htime, hevents, hspans⟩ := h s
  obtain ⟨s₂, events', htakes', htime', hevents', hspans'⟩ := h' s₁
  refine ⟨s₂, events ++ events', htakes.trans htakes', htime'.trans htime, ?_, ?_⟩
  · rw [hevents', hevents, List.append_assoc]
  · rw [Event.spans, List.filterMap_append, ← Event.spans, ← Event.spans, hspans, hspans', htime]

theorem of_writeRegister (hmap : map.Sound) {name : PulseRegister}
    (hwrite : Sequencer.writeRegister map pulse p name t = .ok p') (q : Program) (ch : UInt8) :
    Draws q ch p p' fun _ => [] := by
  intro s
  obtain ⟨s', _, htakes, -, hloads, -⟩ := takes_writeRegister hmap hwrite q s
  exact ⟨s', [], htakes, hloads.time, by rw [hloads.events, List.append_nil], rfl⟩

/-- The setup of a flat-top pulse. -/
theorem of_emitSetup (hmap : map.Sound) {ramp : UInt32} (hstyle : pulse.style = .flatTop ramp)
    (hsetup : Sequencer.emitSetup map pulse p = .ok p') (q : Program) (ch : UInt8) :
    Draws q ch p p' fun _ => [] := by
  obtain ⟨freq, hfreq, hsetup⟩ := bind_eq_ok_iff.1 hsetup
  obtain ⟨phase, hphase, hsetup⟩ := bind_eq_ok_iff.1 hsetup
  obtain ⟨gain, hgain, hsetup⟩ := bind_eq_ok_iff.1 hsetup
  rw [hstyle] at hsetup
  obtain rfl := Except.ok.inj hsetup
  exact ((of_writeRegister hmap hfreq q ch).trans (of_writeRegister hmap hphase q ch)).trans
    (of_writeRegister hmap hgain q ch)

theorem of_emitTrigger {readouts markers : List UInt8} {width : Int}
    (htrigger : Sequencer.emitTrigger p readouts markers t width = .ok p') (q : Program)
    (ch : UInt8) : Draws q ch p p' fun _ => [] := by
  obtain ⟨-, c, c', c'', rfl⟩ := Timeline.emitTrigger_eq_ok htrigger
  intro s
  let raised := (s.write triggerRegister.page triggerRegister.number
    (.ofInt (Timeline.pattern (Timeline.lines readouts markers) : Nat))).next
  let up : Event := .seti 0 (t + raised.time) (raised.get triggerRegister)
  let down : Event := .seti 0 (t + width + raised.time) ((raised.emit up).next.read 0 0)
  refine ⟨((raised.emit up).next.emit down).next, [up, down],
    ((Takes.of_append rfl c).trans (.of_append rfl c')).trans (.of_append rfl c''), rfl,
    List.append_assoc s.events [up] [down], rfl⟩

/-- **The segments of a pulse are drawn one behind the other.** -/
theorem of_emitSegments (hmap : map.Sound) {segments : List (Int × Nat × OutputSelect)}
    (hsegments : Sequencer.emitSegments map pulse p t segments = .ok p') (q : Program) :
    Draws q pulse.channel p p' fun time =>
      Event.spansFrom (t + time) (segments.map (·.2.1)) := by
  induction segments generalizing p t with
  | nil =>
    cases hsegments
    exact refl q pulse.channel _
  | cons segment rest ih =>
    obtain ⟨addr, length, output⟩ := segment
    obtain ⟨written, hwritten, hsegments⟩ := bind_eq_ok_iff.1 hsegments
    obtain ⟨next, hnext, hrest⟩ := bind_eq_ok_iff.1 hsegments
    have hfirst : Draws q pulse.channel p next fun time => [(t + time, t + time + length)] := by
      intro s
      obtain ⟨s₁, r, htakes, htime, hevents, hr, hlength⟩ := takes_emitSegment hmap hwritten q s
      obtain ⟨s₂, event, htakes', htime', hevents', hspan⟩ := takes_emitSet hmap hnext hr q s₁
      refine ⟨s₂, [event], htakes.trans htakes', htime'.trans htime, hevents ▸ hevents', ?_⟩
      rw [htime, hlength] at hspan
      exact List.filterMap_cons_some hspan
    have hall := hfirst.trans (ih hrest)
    simpa [Event.spansFrom, Int.add_right_comm] using hall

end Draws
end Program
end PulseProcessor
