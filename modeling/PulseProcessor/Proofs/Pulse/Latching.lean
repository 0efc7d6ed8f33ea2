import PulseProcessor.Proofs.Assembly.Construction
import PulseProcessor.Proofs.Emulator.Realising
import PulseProcessor.Proofs.Pulse.Playing

/-! # What a channel latches

A `ChannelView` is what can be seen of one channel when times are left out: the parameters in its
registers, and what its updates have put in effect so far.  The code of a sequencer takes a view to
another one (`ChannelView.Shifts`): writing a parameter changes it, an update adds the parameters as
they are then, triggers and sync points change nothing.

All other channels are left out, too.  So it is only from the registers of this channel that the
scratch register of the triggers, and whatever else the program writes, has to keep away
(`ChannelMap.Unlatched`).
-/

namespace PulseProcessor

/-! ### Updates without their times -/

/-- What an update of all registers puts in effect, as numbers. -/
structure Latched where
  freq : Int
  phase : Int
  addr : Int
  gain : Int
  mode : Int
  deriving DecidableEq, Repr

/-- What an event puts in effect on a channel, if it is an update of all its registers. -/
def Event.latched? (ch : UInt8) : Event → Option Latched
  | .set ch' _ freq phase addr gain mode =>
    if ch' = ch then some ⟨freq.toNat, phase.toNat, addr.toNat, gain.toNat, mode.toNat⟩ else none
  | .seti .. => none

/-- What a channel's updates have put in effect, in their order. -/
def Machine.latched (ch : UInt8) (m : Machine) : List Latched :=
  m.events.toList.filterMap (Event.latched? ch)

/-- **The parameter is put in effect by an update.**  The start time only says when; the frequency
of a readout is not for the channel's own pulses. -/
def PulseRegister.Latches (name : PulseRegister) : Prop := name ≠ .time ∧ name ≠ .adcFreq

instance (name : PulseRegister) : Decidable name.Latches := by
  unfold PulseRegister.Latches; infer_instance

/-- **No update of the channel reads the register**, except for its time. -/
def ChannelMap.Unlatched (map : ChannelMap) (ch : UInt8) (r : Register) : Prop :=
  ∀ name : PulseRegister, name.Latches → map.register ch name ≠ .ok r

/-! ### Views -/

/-- What can be seen of a channel. -/
structure ChannelView where
  params : PulseRegister → UInt32 := fun _ => 0
  latched : List Latched := []

namespace ChannelView

/-- A parameter is written. -/
def write (v : ChannelView) (name : PulseRegister) (x : UInt32) : ChannelView :=
  { v with params := fun name' => if name' = name then x else v.params name' }

/-- What an update would put in effect now. -/
def current (v : ChannelView) : Latched where
  freq := (v.params .freq).toNat
  phase := (v.params .phase).toNat
  addr := (v.params .addr).toNat
  gain := (v.params .gain).toNat
  mode := (v.params .mode).toNat

/-- The parameters are put in effect. -/
def latch (v : ChannelView) : ChannelView := { v with latched := v.latched ++ [v.current] }

/-- **A machine shows a view of a channel.** -/
structure ShownBy (v : ChannelView) (map : ChannelMap) (ch : UInt8) (m : Machine) : Prop where
  running : m.halted = false
  params : ∀ {name r}, name.Latches → map.register ch name = .ok r → m.get r = v.params name
  latched : m.latched ch = v.latched

/-- A constant pulse is set up. -/
def setup (v : ChannelView) (pulse : Pulse) (mode : Int) : ChannelView :=
  ((((v.write .freq (.ofInt pulse.freq)).write .phase (.ofInt pulse.phase)).write .gain
    (.ofInt pulse.gain)).write .addr 0).write .mode (.ofInt mode)

theorem current_write_gain (v : ChannelView) (x : UInt32) :
    (v.write .gain x).current = { v.current with gain := x.toNat } := rfl

variable {v : ChannelView} {map : ChannelMap} {ch : UInt8} {m : Machine} {name : PulseRegister}
  {r : Register} {x : UInt32}

namespace ShownBy

theorem write (h : v.ShownBy map ch m) (hmap : map.Sound) (hr : map.register ch name = .ok r) :
    (v.write name x).ShownBy map ch (m.put r x) where
  running := by rw [Machine.put_halted, h.running]
  params {name' r'} hname' hr' := by
    rw [Machine.get_put (hmap.valid hr) (hmap.valid hr')]
    dsimp only [ChannelView.write]
    by_cases hsame : r = r'
    · subst hsame
      rw [if_pos rfl, if_pos (hmap.injective hr' hr).2]
    · have hother : name' ≠ name := by
        rintro rfl
        exact hsame (Except.ok.inj (hr.symm.trans hr'))
      rw [if_neg hsame, if_neg hother, h.params hname' hr']
  latched := by rw [Machine.latched, Machine.put_events]; exact h.latched

/-- Other registers do not show. -/
theorem put (h : v.ShownBy map ch m) (hmap : map.Sound) (hr : r.Valid)
    (hfree : map.Unlatched ch r) : v.ShownBy map ch (m.put r x) where
  running := by rw [Machine.put_halted, h.running]
  params {name' r'} hname' hr' := by
    have hne : r ≠ r' := fun heq => hfree name' hname' (heq ▸ hr')
    rw [Machine.get_put_of_ne hr (hmap.valid hr') hne, h.params hname' hr']
  latched := by rw [Machine.latched, Machine.put_events]; exact h.latched

theorem latched_emit (m : Machine) (ch : UInt8) (e : Event) :
    (m.emit e).latched ch = m.latched ch ++ (e.latched? ch).toList := by
  rw [Machine.latched, Machine.emit, Array.toList_push, List.filterMap_append, Machine.latched]
  cases he : e.latched? ch <;> simp [he]

/-- Updates of a single value do not show. -/
theorem emit_seti (h : v.ShownBy map ch m) (ch' : UInt8) (t : Int) :
    v.ShownBy map ch (m.emit (.seti ch' t x)) where
  running := h.running
  params hname hr := h.params hname hr
  latched := by rw [latched_emit, h.latched]; exact List.append_nil _

/-- **An update puts the parameters in effect.** -/
theorem emit_set (h : v.ShownBy map ch m) (t : Int) :
    v.latch.ShownBy map ch (m.emit (.set ch t (v.params .freq) (v.params .phase) (v.params .addr)
      (v.params .gain) (v.params .mode))) where
  running := h.running
  params hname hr := h.params hname hr
  latched := by
    rw [latched_emit, h.latched, Event.latched?, if_pos rfl]
    rfl

end ShownBy

/-! ### Code -/

/-- **What has been added to a program takes a view to another one**, whatever machine shows it. -/
def Shifts (map : ChannelMap) (ch : UInt8) (kept : List Register) (p p' : Program)
    (g : ChannelView → ChannelView) : Prop :=
  ∃ f, Program.Realises kept p p' f ∧
    ∀ (v : ChannelView) m, v.ShownBy map ch m → (g v).ShownBy map ch (f m)

namespace Shifts

variable {kept : List Register} {p p' p'' q : Program} {ws : List Word} {pulse : Pulse} {t : Int}
  {g g' : ChannelView → ChannelView} {comment : Option String}

theorem refl (map : ChannelMap) (ch : UInt8) (kept : List Register) (p : Program) :
    Shifts map ch kept p p id := ⟨id, .refl kept p, fun _ _ h => h⟩

theorem trans (h : Shifts map ch kept p p' g) (h' : Shifts map ch kept p' p'' g') :
    Shifts map ch kept p p'' (g' ∘ g) := by
  obtain ⟨f, hf, hg⟩ := h
  obtain ⟨f', hf', hg'⟩ := h'
  exact ⟨f' ∘ f, hf.trans hf', fun v m hm => hg' _ _ (hg v m hm)⟩

/-- **Writing a parameter.** -/
theorem of_writeRegister (hq : q.encode = .ok ws) (hmap : map.Sound)
    (hwrite : Sequencer.writeRegister map pulse p name t = .ok p') (hext : p'.Extends q)
    (hkept : ∀ r, map.register pulse.channel name = .ok r → r ∉ kept) :
    Shifts map pulse.channel kept p p' (·.write name (.ofInt t)) := by
  obtain ⟨r, comment, hr, -, -, rfl⟩ := Timeline.writeRegister_eq_ok hwrite
  exact ⟨_, .of_loadConstant hq (hmap.valid hr) (hkept r hr) hext, fun v m hm => hm.write hmap hr⟩

/-- **Updating**: the start time is written, and the parameters are put in effect. -/
theorem of_emitSet (hq : q.encode = .ok ws) (hmap : map.Sound)
    (hset : Sequencer.emitSet map pulse p t = .ok p') (hext : p'.Extends q)
    (hkept : ∀ r, map.register pulse.channel .time = .ok r → r ∉ kept) :
    Shifts map pulse.channel kept p p' latch := by
  obtain ⟨written, hwritten, hset⟩ := bind_eq_ok_iff.1 hset
  obtain ⟨page, hpage, hset⟩ := bind_eq_ok_iff.1 hset
  obtain ⟨freq, hfreq, hset⟩ := bind_eq_ok_iff.1 hset
  obtain ⟨phase, hphase, hset⟩ := bind_eq_ok_iff.1 hset
  obtain ⟨addr, haddr, hset⟩ := bind_eq_ok_iff.1 hset
  obtain ⟨gain, hgain, hset⟩ := bind_eq_ok_iff.1 hset
  obtain ⟨mode, hmode, hset⟩ := bind_eq_ok_iff.1 hset
  obtain ⟨time, htime, hset⟩ := bind_eq_ok_iff.1 hset
  obtain rfl := Except.ok.inj hset
  obtain ⟨r, comment, hr, -, -, rfl⟩ := Timeline.writeRegister_eq_ok hwritten
  have hload := Program.Realises.of_loadConstant hq (hmap.valid hr) (hkept r hr)
    ((Program.extends_append ..).trans hext)
  have hset := Program.Realises.of_append_emit kept hq hext ⟨⟨rfl, nofun⟩, nofun⟩
    fun m hrun => ((Program.at_append ..).extends hext).next?_set hq hrun
  refine ⟨_, hload.trans hset, fun v m hm => ?_⟩
  have hm' : v.ShownBy map pulse.channel (m.put r (.ofInt t)) :=
    hm.put hmap (hmap.valid hr) fun name hname hname' => hname.1 (hmap.injective hname' hr).2
  rw [Function.comp_apply,
    hm'.params (by decide) (Timeline.register_of_number hpage hfreq),
    hm'.params (by decide) (Timeline.register_of_number hpage hphase),
    hm'.params (by decide) (Timeline.register_of_number hpage haddr),
    hm'.params (by decide) (Timeline.register_of_number hpage hgain),
    hm'.params (by decide) (Timeline.register_of_number hpage hmode)]
  exact hm'.emit_set _

/-- What has been written is in the register as it is. -/
theorem toNat_of_writeRegister (hmap : map.Sound)
    (hwrite : Sequencer.writeRegister map pulse p name t = .ok p') :
    ((UInt32.ofInt t).toNat : Int) = t := by
  obtain ⟨-, -, -, hnonneg, hlt, -⟩ := Timeline.writeRegister_eq_ok hwrite
  have := Isa.one_shiftLeft_le (hmap.width_le name)
  rw [toNat_ofInt, Int.emod_eq_of_lt hnonneg (by omega)]

/-- **Setting up a constant pulse.**  An update behind it puts in effect what the pulse says. -/
theorem of_emitSetup (hq : q.encode = .ok ws) (hmap : map.Sound) (hstyle : pulse.style = .constant)
    (hsetup : Sequencer.emitSetup map pulse p = .ok p') (hext : p'.Extends q) :
    ∃ mode, pulse.mode .dds pulse.length.toNat = .ok mode ∧
      Shifts map pulse.channel [] p p' (·.setup pulse mode) ∧
      (0 ≤ pulse.gain ∧ pulse.gain < (1 <<< map.width .gain : Nat)) ∧
      ∀ v : ChannelView, (v.setup pulse mode).current =
        { freq := pulse.freq, phase := pulse.phase, addr := 0, gain := pulse.gain, mode } := by
  obtain ⟨freq, hfreq, hsetup⟩ := bind_eq_ok_iff.1 hsetup
  obtain ⟨phase, hphase, hsetup⟩ := bind_eq_ok_iff.1 hsetup
  obtain ⟨gain, hgain, hsetup⟩ := bind_eq_ok_iff.1 hsetup
  rw [hstyle] at hsetup
  obtain ⟨mode, hmode, hsetup⟩ := bind_eq_ok_iff.1 hsetup
  obtain ⟨addr, haddr, hlast⟩ := bind_eq_ok_iff.1 hsetup
  have haddrExt := (Sequencer.writes_writeRegister hlast).extends.trans hext
  have hgainExt := (Sequencer.writes_writeRegister haddr).extends.trans haddrExt
  have hphaseExt := (Sequencer.writes_writeRegister hgain).extends.trans hgainExt
  have hfreqExt := (Sequencer.writes_writeRegister hphase).extends.trans hphaseExt
  have hall : Shifts map pulse.channel [] p p' (·.setup pulse mode) :=
    ((((of_writeRegister hq hmap hfreq hfreqExt (by simp)).trans
      (of_writeRegister hq hmap hphase hphaseExt (by simp))).trans
        (of_writeRegister hq hmap hgain hgainExt (by simp))).trans
          (of_writeRegister hq hmap haddr haddrExt (by simp))).trans
            (of_writeRegister hq hmap hlast hext (by simp))
  obtain ⟨-, -, -, hnonneg, hlt, -⟩ := Timeline.writeRegister_eq_ok hgain
  refine ⟨mode, hmode, hall, ⟨hnonneg, hlt⟩, fun v => ?_⟩
  have hvalues : (v.setup pulse mode).current =
      { freq := (UInt32.ofInt pulse.freq).toNat, phase := (UInt32.ofInt pulse.phase).toNat,
        addr := 0, gain := (UInt32.ofInt pulse.gain).toNat, mode := (UInt32.ofInt mode).toNat } :=
    rfl
  rw [hvalues, toNat_of_writeRegister hmap hfreq, toNat_of_writeRegister hmap hphase,
    toNat_of_writeRegister hmap hgain, toNat_of_writeRegister hmap hlast]

/-- Triggers write their pattern into a register of their own. -/
theorem of_emitTrigger (hq : q.encode = .ok ws) (hmap : map.Sound) {readouts markers : List UInt8}
    {width : Int} (htrigger : Sequencer.emitTrigger p readouts markers t width = .ok p')
    (hext : p'.Extends q) (hfree : map.Unlatched ch triggerRegister)
    (hkept : triggerRegister ∉ kept) : Shifts map ch kept p p' id := by
  obtain ⟨-, c, c', c'', rfl⟩ := Timeline.emitTrigger_eq_ok htrigger
  have hr : triggerRegister.Valid := ⟨by decide, by decide, by decide⟩
  have hext' := (Program.extends_append ..).trans hext
  have hfirst := (Program.extends_append ..).trans hext'
  have hload := Program.Realises.of_append_put hq hfirst hkept ⟨rfl, nofun⟩ rfl
    fun m hrun => ((Program.at_append ..).extends hfirst).next?_regwi hq hrun
  have hraise := Program.Realises.of_append_emit kept hq hext'
    ⟨⟨rfl, nofun⟩, nofun⟩
    fun m hrun => ((Program.at_append ..).extends hext').next?_seti hq hrun
  have hlower := Program.Realises.of_append_emit kept hq hext
    ⟨⟨rfl, nofun⟩, nofun⟩
    fun m hrun => ((Program.at_append ..).extends hext).next?_seti (r := ⟨0, 0⟩) hq hrun
  exact ⟨_, (hload.trans hraise).trans hlower, fun v m hm =>
    ((hm.put hmap hr hfree).emit_seti _ _).emit_seti _ _⟩

/-- Sync points change nothing that can be seen. -/
theorem of_syncAll (hq : q.encode = .ok ws) (s : Sequencer) (extra : Int)
    (hext : (s.syncAll extra).program.Extends q) :
    Shifts map ch kept s.program (s.syncAll extra).program id := by
  rcases s.program_syncAll extra with heq | ⟨t, heq⟩
  · rw [heq]
    exact .refl ..
  · rw [heq] at hext ⊢
    have hsync := Program.Realises.of_append kept hq hext
      (f := fun m => m.wait (t.bmod (1 <<< 31))) ⟨⟨rfl, nofun⟩, nofun⟩ (fun _ => rfl)
      fun m hrun => ((Program.at_append ..).extends hext).next?_synci hq hrun
    exact ⟨_, hsync, fun v m hm => ⟨hm.running, hm.params, hm.latched⟩⟩

end Shifts

end ChannelView
end PulseProcessor
