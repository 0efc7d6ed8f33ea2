import PulseProcessor.Proofs.Sweep.Nest
import PulseProcessor.Pulse.Sequencer

/-! # Programs under construction

`Program.Builds` is a run of calls: direct appends, sequencer operations and sweeps around bodies
that call further, in any order, each of which may fail.  Whatever the calls are, the program only
grows by instructions and labels (`Program.Builds.grows`).  Pulses and triggers add no labels, and
of the instructions only a few (`Instruction.OfPulse`).
-/

namespace PulseProcessor

variable {p q : Program}

/-! ### Pulses -/

/-- **What the code of a pulse consists of**: it loads registers and updates channels. -/
inductive Instruction.OfPulse : Instruction → Prop
  | regwi (page reg : UInt8) (v : Int) : OfPulse (.regwi page reg v)
  | bitwi (page reg : UInt8) (v : Int) : OfPulse (.bitwi page reg reg (.known .shl) v)
  | mathi (page reg : UInt8) (v : Int) : OfPulse (.mathi page reg reg (.known .add) v)
  | set (channel page freq phase addr gain mode time : UInt8) :
      OfPulse (.set channel page freq phase addr gain mode time)
  | seti (channel page reg : UInt8) (t : Int) : OfPulse (.seti channel page reg t)

/-- What the code of a sequencer consists of: the code of pulses, and steps of the time offset. -/
inductive Instruction.OfSequencer : Instruction → Prop
  | pulse {i : Instruction} (h : i.OfPulse) : OfSequencer i
  | synci (t : Int) : OfSequencer (.synci t)

namespace Sequencer

open Instruction (OfPulse OfSequencer)
open Program (Writes)

variable {map : ChannelMap} {pulse : Pulse}

theorem writes_writeRegister {name : PulseRegister} {v : Int}
    (h : writeRegister map pulse p name v = .ok q) : Writes OfPulse p q := by
  obtain ⟨r, -, h⟩ := bind_eq_ok_iff.1 h
  dsimp only at h
  split at h
  · contradiction
  · cases h
    exact .of_loadConstant (fun _ => .regwi ..) (.bitwi ..) (fun _ => .mathi ..) ..

theorem writes_emitSet {t : Int} (h : emitSet map pulse p t = .ok q) : Writes OfPulse p q := by
  obtain ⟨written, hwritten, h⟩ := bind_eq_ok_iff.1 h
  obtain ⟨page, -, h⟩ := bind_eq_ok_iff.1 h
  obtain ⟨freq, -, h⟩ := bind_eq_ok_iff.1 h
  obtain ⟨phase, -, h⟩ := bind_eq_ok_iff.1 h
  obtain ⟨addr, -, h⟩ := bind_eq_ok_iff.1 h
  obtain ⟨gain, -, h⟩ := bind_eq_ok_iff.1 h
  obtain ⟨mode, -, h⟩ := bind_eq_ok_iff.1 h
  obtain ⟨time, -, h⟩ := bind_eq_ok_iff.1 h
  cases h
  exact (writes_writeRegister hwritten).append (.set ..) _

theorem writes_emitSegment {addr : Int} {length : Nat} {output : OutputSelect}
    (h : emitSegment map pulse p addr length output = .ok q) : Writes OfPulse p q := by
  obtain ⟨mode, -, h⟩ := bind_eq_ok_iff.1 h
  obtain ⟨written, hwritten, h⟩ := bind_eq_ok_iff.1 h
  exact (writes_writeRegister hwritten).trans (writes_writeRegister h)

theorem writes_emitSetup (h : emitSetup map pulse p = .ok q) : Writes OfPulse p q := by
  obtain ⟨freq, hfreq, h⟩ := bind_eq_ok_iff.1 h
  obtain ⟨phase, hphase, h⟩ := bind_eq_ok_iff.1 h
  obtain ⟨gain, hgain, h⟩ := bind_eq_ok_iff.1 h
  have hcommon : Writes OfPulse p gain :=
    ((writes_writeRegister hfreq).trans (writes_writeRegister hphase)).trans
      (writes_writeRegister hgain)
  split at h
  · exact hcommon.trans (writes_emitSegment h)
  · exact hcommon.trans (writes_emitSegment h)
  · cases h
    exact hcommon

theorem writes_emitSegments {t : Int} {segments : List (Int × Nat × OutputSelect)}
    (h : emitSegments map pulse p t segments = .ok q) : Writes OfPulse p q := by
  induction segments generalizing p t with
  | nil =>
    cases h
    exact .refl _
  | cons segment rest ih =>
    obtain ⟨written, hwritten, h⟩ := bind_eq_ok_iff.1 h
    obtain ⟨set, hset, h⟩ := bind_eq_ok_iff.1 h
    exact ((writes_emitSegment hwritten).trans (writes_emitSet hset)).trans (ih h)

theorem writes_emitPlay {t : Int} (h : emitPlay map pulse p t = .ok q) : Writes OfPulse p q := by
  unfold emitPlay at h
  split at h
  · exact writes_emitSet h
  · exact writes_emitSet h
  · dsimp only at h
    split at h
    · contradiction
    · exact writes_emitSegments h

theorem writes_emitTrigger {readouts markers : List UInt8} {t width : Int}
    (h : emitTrigger p readouts markers t width = .ok q) : Writes OfPulse p q := by
  obtain ⟨pattern, -, h⟩ := bind_eq_ok_iff.1 h
  obtain ⟨pattern', -, h⟩ := bind_eq_ok_iff.1 h
  dsimp only [triggerRegister] at h
  split at h
  · contradiction
  · cases h
    exact ((Writes.of_append _ _ (.regwi ..)).append (.seti ..) _).append (.seti ..) _

variable {s s' : Sequencer} {start : Start} {t : Int}

theorem writes_setup (h : s.setup map pulse = .ok s') : Writes OfPulse s.program s'.program := by
  obtain ⟨p, hp, h⟩ := bind_eq_ok_iff.1 h
  cases h
  exact writes_emitSetup hp

theorem writes_play (h : s.play map pulse start = .ok (s', t)) :
    Writes OfPulse s.program s'.program := by
  obtain ⟨p, hp, h⟩ := bind_eq_ok_iff.1 h
  cases h
  exact writes_emitPlay hp

theorem writes_pulse (h : s.pulse map pulse start = .ok (s', t)) :
    Writes OfPulse s.program s'.program := by
  obtain ⟨s₁, hsetup, h⟩ := bind_eq_ok_iff.1 h
  exact (writes_setup hsetup).trans (writes_play h)

theorem writes_trigger {readouts markers : List UInt8} {width : Int}
    (h : s.trigger readouts markers t width = .ok s') : Writes OfPulse s.program s'.program := by
  obtain ⟨p, hp, h⟩ := bind_eq_ok_iff.1 h
  cases h
  exact writes_emitTrigger hp

theorem writes_measure {readouts : List UInt8} {offset : Int}
    (h : s.measure map pulse readouts offset start = .ok (s', t)) :
    Writes OfPulse s.program s'.program := by
  obtain ⟨s₁, htrigger, h⟩ := bind_eq_ok_iff.1 h
  exact (writes_trigger htrigger).trans (writes_pulse h)

/-- A sync point is moved by one instruction, if at all. -/
theorem program_syncAll (s : Sequencer) (extra : Int) : (s.syncAll extra).program = s.program ∨
    ∃ t, (s.syncAll extra).program = s.program.append (.synci t) := by
  unfold syncAll
  dsimp only
  split <;> split
  · exact .inr ⟨_, rfl⟩
  · exact .inl rfl
  · exact .inr ⟨_, rfl⟩
  · exact .inl rfl

theorem writes_syncAll (s : Sequencer) (extra : Int) :
    Writes OfSequencer s.program (s.syncAll extra).program := by
  rcases s.program_syncAll extra with heq | ⟨t, heq⟩
  · rw [heq]
    exact .refl _
  · rw [heq]
    exact .of_append _ _ (.synci t)

theorem writes_delay (s : Sequencer) (cycles : Int) :
    Writes OfSequencer s.program (s.delay cycles).program :=
  (s.writes_syncAll 0).trans (.of_foldl (fun _ t => .of_append _ _ (.synci t)) ..)

/-- **What a sequencer operation writes.** -/
theorem writes_perform {call : Call} {result : Sequencer × Option Int}
    (h : s.perform map call = .ok result) : Writes OfSequencer s.program result.1.program := by
  cases call with
  | setup pulse =>
    obtain ⟨s₁, hs₁, h⟩ := bind_eq_ok_iff.1 h
    cases h
    exact (writes_setup hs₁).mono fun _ => .pulse
  | play pulse start =>
    obtain ⟨⟨s₁, t⟩, hs₁, rfl⟩ := map_eq_ok_iff.1 h
    exact (writes_play hs₁).mono fun _ => .pulse
  | pulse pulse start =>
    obtain ⟨⟨s₁, t⟩, hs₁, rfl⟩ := map_eq_ok_iff.1 h
    exact (writes_pulse hs₁).mono fun _ => .pulse
  | measure pulse readouts offset start =>
    obtain ⟨⟨s₁, t⟩, hs₁, rfl⟩ := map_eq_ok_iff.1 h
    exact (writes_measure hs₁).mono fun _ => .pulse
  | trigger readouts markers t width =>
    obtain ⟨s₁, hs₁, h⟩ := bind_eq_ok_iff.1 h
    cases h
    exact (writes_trigger hs₁).mono fun _ => .pulse
  | syncAll extra =>
    cases h
    exact s.writes_syncAll extra
  | delay cycles =>
    cases h
    exact s.writes_delay cycles

end Sequencer

/-! ### Runs of calls -/

/-- What a caller holds after a call: its result, or what there was before if the call fails. -/
def kept {α : Type} (old : α) : Except AssemblyError α → α
  | .ok new => new
  | .error _ => old

namespace Program

/-- **A run of calls takes a program to another one.**  A sequencer comes with any timestamps and a
generator with any live registers: what else the caller does with them is left open.  The body of a
sweep is any function whose successes are runs of calls themselves; it may look at the generator,
give up, or go on where a call has failed. -/
inductive Builds : Program → Program → Prop
  | done (p : Program) : Builds p p
  | append {p q : Program} (h : Builds p q) (i : Instruction) (comment : Option String) :
      Builds p (q.append i comment)
  | loadConstant {p q : Program} (h : Builds p q) (page reg : UInt8) (v : Int)
      (comment : Option String) : Builds p (q.loadConstant page reg v comment)
  | defineLabel {p q : Program} (h : Builds p q) (name : String) :
      Builds p (kept q (q.defineLabel name))
  | sequencer {p q : Program} (h : Builds p q) (map : ChannelMap) (timestamps : List (UInt8 × Int))
      (call : Sequencer.Call) :
      Builds p (kept q ((Sequencer.perform map ⟨q, timestamps⟩ call).map (·.1.program)))
  | reserve {p q : Program} (h : Builds p q) (live : List (Register × String)) (r : Register)
      (owner : String) :
      Builds p (kept q ((SweepGenerator.reserve ⟨q, live⟩ r owner).map (·.program)))
  | sweep {p q : Program} (h : Builds p q) (live : List (Register × String)) (s : Sweep)
      (body : SweepGenerator → Except AssemblyError SweepGenerator)
      (hbody : ∀ inner inner', body inner = .ok inner' → Builds inner.program inner'.program) :
      Builds p (kept q ((Id.run (SweepGenerator.sweep ⟨q, live⟩ s
        fun inner => ExceptT.mk (body inner)).run).map (·.program)))

/-- A call that only lets the program grow does so if it fails, too. -/
theorem Grows.kept {r : Except AssemblyError Program} (h : p.Grows q)
    (hr : ∀ q', r = .ok q' → q.Grows q') : p.Grows (kept q r) := by
  cases r with
  | error e => exact h
  | ok q' => exact h.trans (hr q' rfl)

/-- **Whatever is called, the program only grows.** -/
theorem Builds.grows (h : Builds p q) : p.Grows q := by
  induction h with
  | done p => exact .refl p
  | append _ i comment ih => exact ih.append i comment
  | loadConstant _ page reg v comment ih => exact ih.trans (.of_loadConstant ..)
  | defineLabel _ name ih => exact ih.kept fun q' hq' => (Grows.refl _).defineLabel hq'
  | sequencer _ map timestamps call ih =>
    refine ih.kept fun q' hq' => ?_
    obtain ⟨result, hresult, rfl⟩ := map_eq_ok_iff.1 hq'
    exact (Sequencer.writes_perform hresult).grows
  | reserve _ live r owner ih =>
    refine ih.kept fun q' hq' => ?_
    obtain ⟨g, hg, rfl⟩ := map_eq_ok_iff.1 hq'
    obtain ⟨-, -, hprogram, -⟩ := SweepGenerator.reserve_eq_ok hg
    rw [hprogram]
    exact .refl _
  | sweep _ live s body _ ih ihbody =>
    -- Loading and label, the calls of the body, stepping and jump, one after the other.
    refine ih.kept fun q' hq' => ?_
    rw [SweepGenerator.run_sweep] at hq'
    obtain ⟨g, hg, rfl⟩ := map_eq_ok_iff.1 hq'
    obtain ⟨inner, hinner, hg⟩ := bind_eq_ok_iff.1 hg
    obtain ⟨inner', hbody, rfl⟩ := map_eq_ok_iff.1 hg
    exact ((SweepGenerator.grows_enter hinner).trans (ihbody inner inner' hbody)).trans
      (inner'.grows_leave _ s)

end Program
end PulseProcessor
