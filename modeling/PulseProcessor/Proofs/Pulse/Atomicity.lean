import PulseProcessor.Proofs.Assembly.Construction
import PulseProcessor.Proofs.Assembly.InPlace
import PulseProcessor.Pulse.InPlace

/-! # Sequencer operations are atomic

An operation in place does what the operation on values does, and one that fails leaves the
sequencer as it was, program and timestamps (`outcome_perform`, `perform_atomic`).

The edits that write code either do what they should or stop somewhere on the way (`Emits`).
Wherever that is, all they have done is to add to the program, and this is undone.  No edit that can
fail comes behind the one that changes a timestamp.
-/

namespace PulseProcessor
namespace Sequencer.InPlace

open Edit (outcome settled)
open Program.InPlace (append loadConstant)

variable {map : ChannelMap} {pulse : Pulse} {s : Sequencer} {α : Type}

@[simp] theorem outcome_onProgram (e : Edit Program α) (s : Sequencer) :
    outcome (onProgram e) s =
      ((outcome e s.program).1, { s with program := (outcome e s.program).2 }) := rfl

/-! ### Code that stops on the way -/

/-- **How far an edit has got**: it has done all that it should, or has failed after it has written
something behind the program. -/
inductive Gets (s : Sequencer) : Except AssemblyError Program →
    Except AssemblyError Unit × Sequencer → Prop
  | done {p : Program} (adds : s.program.Extends p) :
      Gets s (.ok p) (.ok (), { s with program := p })
  | stopped {e : AssemblyError} {p : Program} (adds : s.program.Extends p) :
      Gets s (.error e) (.error e, { s with program := p })

/-- **An edit does what a function on programs does**, or stops with its error. -/
structure Emits (e : Edit Sequencer Unit) (f : Program → Except AssemblyError Program) : Prop where
  gets : ∀ s, Gets s (f s.program) (outcome e s)

namespace Emits

variable {e e' : Edit Sequencer Unit} {f f' : Program → Except AssemblyError Program}

theorem nothing : Emits (pure ()) pure := ⟨fun s => .done (.refl s.program)⟩

theorem fail (e : AssemblyError) : Emits (throw e) fun _ => throw e :=
  ⟨fun s => .stopped (.refl s.program)⟩

theorem append (i : Instruction) (comment : Option String) :
    Emits (discard (onProgram (append i comment))) fun p => pure (p.append i comment) :=
  ⟨fun _ => .done (Program.extends_append ..)⟩

theorem loadConstant (page reg : UInt8) (v : Int) (comment : Option String) :
    Emits (discard (onProgram (loadConstant page reg v comment)))
      fun p => pure (p.loadConstant page reg v comment) := by
  constructor
  intro s
  rw [Edit.outcome_discard, outcome_onProgram, Program.InPlace.outcome_loadConstant]
  exact .done (Program.Grows.of_loadConstant ..).extends

/-- What is emitted first stays if what comes next stops. -/
theorem bind (he : Emits e f) (he' : Emits e' f') : Emits (do e; e') fun p => f p >>= f' := by
  constructor
  intro s
  have hs := he.gets s
  rw [Edit.outcome_bind]
  show Gets s (f s.program >>= f') _
  generalize f s.program = r, outcome e s = x at hs
  cases hs with
  | stopped adds => exact .stopped adds
  | @done p adds =>
    have hs' := he'.gets { s with program := p }
    show Gets s (f' p) (outcome e' { s with program := p })
    generalize f' p = r, outcome e' { s with program := p } = x at hs'
    cases hs' with
    | stopped adds' => exact .stopped (adds.trans adds')
    | done adds' => exact .done (adds.trans adds')

/-- A question emits nothing. -/
theorem answer {r : Except AssemblyError α} {k : α → Edit Sequencer Unit}
    {g : α → Program → Except AssemblyError Program} (h : ∀ a, Emits (k a) (g a)) :
    Emits (EditT.answer r >>= k) fun p => r >>= fun a => g a p := by
  cases r with
  | error e => exact fail e
  | ok a => exact h a

end Emits

/-! ### Code of a single pulse -/

theorem emits_writeRegister (name : PulseRegister) (v : Int) :
    Emits (writeRegister map pulse name v) fun p =>
      Sequencer.writeRegister map pulse p name v := by
  refine Emits.answer fun r => ?_
  by_cases hwide : v < 0 ∨ v ≥ (1 <<< map.width name : Nat)
  · simp only [if_pos hwide]
    exact .fail _
  · simp only [if_neg hwide]
    exact .loadConstant ..

theorem emits_emitSet (t : Int) :
    Emits (emitSet map pulse t) fun p => Sequencer.emitSet map pulse p t := by
  refine (emits_writeRegister .time t).bind ?_
  exact .answer fun _ => .answer fun _ => .answer fun _ => .answer fun _ => .answer fun _ =>
    .answer fun _ => .answer fun _ => .append ..

theorem emits_emitSegment (addr : Int) (length : Nat) (output : OutputSelect) :
    Emits (emitSegment map pulse addr length output) fun p =>
      Sequencer.emitSegment map pulse p addr length output :=
  .answer fun _ => (emits_writeRegister ..).bind (emits_writeRegister ..)

theorem emits_emitSetup (map : ChannelMap) (pulse : Pulse) :
    Emits (emitSetup map pulse) fun p => Sequencer.emitSetup map pulse p := by
  refine (emits_writeRegister ..).bind <| (emits_writeRegister ..).bind <|
    (emits_writeRegister ..).bind ?_
  cases pulse.style with
  | constant => exact emits_emitSegment ..
  | arbitrary => exact emits_emitSegment ..
  | flatTop ramp => exact .nothing

theorem emits_emitSegments (t : Int) (segments : List (Int × Nat × OutputSelect)) :
    Emits (emitSegments map pulse t segments) fun p =>
      Sequencer.emitSegments map pulse p t segments := by
  induction segments generalizing t with
  | nil => exact .nothing
  | cons segment rest ih =>
    obtain ⟨addr, length, output⟩ := segment
    exact (emits_emitSegment ..).bind ((emits_emitSet t).bind (ih (t + length)))

theorem emits_emitAt (map : ChannelMap) (pulse : Pulse) (t : Int) :
    Emits (emitAt map pulse t) fun p => Sequencer.emitPlay map pulse p t := by
  unfold emitAt Sequencer.emitPlay
  cases pulse.style with
  | constant => exact emits_emitSet t
  | arbitrary => exact emits_emitSet t
  | flatTop ramp =>
    by_cases hshort : Pulse.rampHalf ramp = 0
    · simp only [if_pos hshort]
      exact .fail _
    · simp only [if_neg hshort]
      exact emits_emitSegments ..

/-! ### Operations -/

theorem outcome_atomic_ok {e : Edit Sequencer α} {a : α} {s' : Sequencer}
    (h : outcome e s = (.ok a, s')) : outcome (atomic e) s = (.ok a, s') := by
  rw [atomic, Edit.outcome_bind_of_ok (Edit.outcome_get s),
    Edit.outcome_bind_of_ok (Edit.outcome_attempt ..), h]
  rfl

/-- **What has been written before an error is dropped.** -/
theorem outcome_atomic_error {e : Edit Sequencer α} {err : AssemblyError} {p : Program}
    (h : outcome e s = (.error err, { s with program := p })) (adds : s.program.Extends p) :
    outcome (atomic e) s = (.error err, s) := by
  rw [atomic, Edit.outcome_bind_of_ok (Edit.outcome_get s),
    Edit.outcome_bind_of_ok (Edit.outcome_attempt ..), h]
  show (Except.error err, { s with program := p.rollback s.program.checkpoint }) = _
  rw [adds.rollback]

variable {e : Edit Sequencer Unit} {f : Program → Except AssemblyError Program}

/-- Code on its own. -/
theorem Emits.outcome_atomic (h : Emits e f) (s : Sequencer) :
    outcome (atomic e) s =
      settled s ((f s.program).map fun p => ((), { s with program := p })) := by
  have hs := h.gets s
  generalize hr : f s.program = r, hx : outcome e s = x at hs
  cases hs with
  | done adds => exact outcome_atomic_ok hx
  | stopped adds => exact outcome_atomic_error hx adds

/-- Code in front of a pulse, and the pulse, which starts when it would have started without the
code. -/
theorem Emits.outcome_atomic_play (h : Emits e f) (map : ChannelMap) (pulse : Pulse)
    (start : Start) (s : Sequencer) :
    let t := s.startTime pulse.channel start
    outcome (atomic do e; emitPlay map pulse start) s =
      settled s ((f s.program >>= fun p => Sequencer.emitPlay map pulse p t).map fun p =>
        (t, { s with program := p }.setTimestamp pulse.channel (t + pulse.duration))) := by
  intro t
  have hs := h.gets s
  generalize hr : f s.program = r, hx : outcome e s = x at hs
  cases hs with
  | stopped adds => exact outcome_atomic_error (Edit.outcome_bind_of_error hx) adds
  | @done p adds =>
    have hplay := (emits_emitAt map pulse t).gets { s with program := p }
    have hoften : outcome (do e; emitPlay map pulse start) s = outcome (do
        emitAt map pulse t
        modify (·.setTimestamp pulse.channel (t + pulse.duration))
        return t) { s with program := p } := by
      rw [Edit.outcome_bind_of_ok hx, emitPlay, Edit.outcome_bind_of_ok (Edit.outcome_get _)]
      cases start <;> rfl
    show _ = settled s ((Sequencer.emitPlay map pulse p t).map _)
    dsimp only at hplay
    generalize Sequencer.emitPlay map pulse p t = r', hx' : outcome _ _ = x' at hplay
    cases hplay with
    | stopped adds' =>
      exact outcome_atomic_error (hoften.trans (Edit.outcome_bind_of_error hx')) (adds.trans adds')
    | done adds' =>
      exact outcome_atomic_ok (hoften.trans (Edit.outcome_bind_of_ok hx'))

theorem startTime_eq (s : Sequencer) (p : Program) (channel : UInt8) (start : Start) :
    { s with program := p }.startTime channel start = s.startTime channel start := by
  cases start <;> rfl

theorem outcome_setup (map : ChannelMap) (pulse : Pulse) (s : Sequencer) :
    outcome (setup map pulse) s = settled s ((s.setup map pulse).map ((), ·)) := by
  rw [InPlace.setup, (emits_emitSetup map pulse).outcome_atomic, Sequencer.setup]
  cases Sequencer.emitSetup map pulse s.program <;> rfl

theorem outcome_play (map : ChannelMap) (pulse : Pulse) (start : Start) (s : Sequencer) :
    outcome (play map pulse start) s = settled s ((s.play map pulse start).map Prod.swap) := by
  have hplay := Emits.nothing.outcome_atomic_play map pulse start s
  rw [pure_bind] at hplay
  rw [InPlace.play, hplay, Sequencer.play]
  simp only [pure_bind]
  cases Sequencer.emitPlay map pulse s.program _ <;> rfl

/-- A pulse behind other code is a pulse of a sequencer that has got this code. -/
theorem pulse_withProgram (map : ChannelMap) (pulse : Pulse) (start : Start) (s : Sequencer)
    (p : Program) :
    ({ s with program := p }.pulse map pulse start).map Prod.swap =
      (Sequencer.emitSetup map pulse p >>= fun p =>
        Sequencer.emitPlay map pulse p (s.startTime pulse.channel start)).map fun p =>
        (s.startTime pulse.channel start, { s with program := p }.setTimestamp pulse.channel
          (s.startTime pulse.channel start + pulse.duration)) := by
  rw [Sequencer.pulse, Sequencer.setup]
  dsimp only
  cases Sequencer.emitSetup map pulse p with
  | error e => rfl
  | ok p' =>
    show ({ s with program := p' }.play map pulse start).map Prod.swap =
      (Sequencer.emitPlay map pulse p' (s.startTime pulse.channel start)).map _
    rw [Sequencer.play]
    simp only [startTime_eq]
    cases Sequencer.emitPlay map pulse p' _ <;> rfl

theorem outcome_pulse (map : ChannelMap) (pulse : Pulse) (start : Start) (s : Sequencer) :
    outcome (InPlace.pulse map pulse start) s =
      settled s ((s.pulse map pulse start).map Prod.swap) := by
  rw [InPlace.pulse, (emits_emitSetup map pulse).outcome_atomic_play]
  exact congrArg (settled s) (pulse_withProgram map pulse start s s.program).symm

/-- A trigger that is refused has written nothing, so there is nothing to drop. -/
theorem outcome_trigger (readouts markers : List UInt8) (t width : Int) (s : Sequencer) :
    outcome (trigger readouts markers t width) s =
      settled s ((s.trigger readouts markers t width).map ((), ·)) := by
  have hanswer {α : Type} {r : Except AssemblyError α} {k : α → Edit Sequencer Unit}
      {g : α → Except AssemblyError Sequencer}
      (h : ∀ a, outcome (k a) s = settled s ((g a).map ((), ·))) :
      outcome (EditT.answer r >>= k) s = settled s ((r >>= g).map ((), ·)) := by
    cases r with
    | error e => rfl
    | ok a => exact h a
  rw [Sequencer.trigger, emitTrigger, bind_assoc]
  refine hanswer fun pattern => ?_
  rw [bind_assoc]
  refine hanswer fun pattern' => ?_
  by_cases hwidth : width ≤ 0
  · rw [if_pos hwidth, if_pos hwidth]
    rfl
  · rw [if_neg hwidth, if_neg hwidth]
    rfl

theorem emits_trigger (readouts markers : List UInt8) (t width : Int) :
    Emits (trigger readouts markers t width) fun p =>
      Sequencer.emitTrigger p readouts markers t width := by
  constructor
  intro s
  rw [outcome_trigger, Sequencer.trigger]
  cases hp : emitTrigger s.program readouts markers t width with
  | error e => exact .stopped (.refl s.program)
  | ok p => exact .done (writes_emitTrigger hp).extends

theorem outcome_measure (map : ChannelMap) (pulse : Pulse) (readouts : List UInt8) (offset : Int)
    (start : Start) (s : Sequencer) : outcome (measure map pulse readouts offset start) s =
      settled s ((s.measure map pulse readouts offset start).map Prod.swap) := by
  let t := s.startTime pulse.channel start
  let triggered := emitTrigger s.program readouts [] (t + offset) (pulse.duration + triggerTail)
  have hemits := (emits_trigger readouts [] (t + offset) (pulse.duration + triggerTail)).bind
    (emits_emitSetup map pulse)
  have hplay := hemits.outcome_atomic_play map pulse (.at t) s
  rw [bind_assoc] at hplay
  rw [InPlace.measure, Edit.outcome_bind_of_ok (Edit.outcome_get s)]
  refine hplay.trans (congrArg (settled s) ?_)
  rw [Sequencer.measure, Sequencer.trigger, bind_assoc, bind_assoc]
  show ((triggered >>= _).map _ : Except AssemblyError (Int × Sequencer)) = (triggered >>= _).map _
  cases triggered with
  | error e => rfl
  | ok p => exact (pulse_withProgram map pulse (.at t) s p).symm

/-- **An operation in place does what the operation does**, and if it fails it leaves the sequencer
as it was. -/
theorem outcome_perform (map : ChannelMap) (call : Call) (s : Sequencer) :
    outcome (perform map call) s = settled s ((s.perform map call).map Prod.swap) := by
  cases call with
  | setup pulse =>
    have h := outcome_setup map pulse s
    rw [InPlace.perform, Edit.outcome_bind, h, Sequencer.perform]
    cases s.setup map pulse <;> rfl
  | play pulse start =>
    have h := outcome_play map pulse start s
    rw [InPlace.perform, Edit.outcome_map, h, Sequencer.perform]
    cases s.play map pulse start <;> rfl
  | pulse pulse start =>
    have h := outcome_pulse map pulse start s
    rw [InPlace.perform, Edit.outcome_map, h, Sequencer.perform]
    cases s.pulse map pulse start <;> rfl
  | measure pulse readouts offset start =>
    have h := outcome_measure map pulse readouts offset start s
    rw [InPlace.perform, Edit.outcome_map, h, Sequencer.perform]
    cases s.measure map pulse readouts offset start <;> rfl
  | trigger readouts markers t width =>
    have h := outcome_trigger readouts markers t width s
    rw [InPlace.perform, Edit.outcome_bind, h, Sequencer.perform]
    cases s.trigger readouts markers t width <;> rfl
  | syncAll extra => rfl
  | delay cycles => rfl

/-- **Sequencer operations are atomic.**  One that fails, for whatever reason and after however much
code, has changed neither the program with its comments and labels nor any timestamp.  It fails as
the operation on values does. -/
theorem perform_atomic (map : ChannelMap) (s : Sequencer) (call : Call) {e : AssemblyError}
    (h : (outcome (perform map call) s).1 = .error e) :
    (outcome (perform map call) s).2 = s ∧ s.perform map call = .error e := by
  rw [outcome_perform] at h ⊢
  obtain ⟨hfails, hsame⟩ := Edit.settled_eq_error h
  exact ⟨hsame, hfails⟩

/-- A readout with a flat-top pulse.  The address of its second ramp is too wide for the register,
which is noticed when the trigger, the setup and two segments are written. -/
theorem perform_atomic_flatTop :
    let map : ChannelMap := ⟨RegisterMap.standard.channels, RegisterMap.standard.widths⟩
    let pulse : Pulse :=
      { channel := 1, name := "readout", style := .flatTop 4, freq := 7, phase := 0, gain := 100
        addr := 4294967294, length := 60 }
    let s : Sequencer :=
      { program := { statements := #[⟨.synci 1, some "kept"⟩] }, timestamps := [(1, 20)] }
    let call := Call.measure pulse [0] 5 .auto
    (outcome (perform map call) s).1 =
        .error (.invalidPulse "readout" (.value .addr 4294967296 32)) ∧
      (outcome (perform map call) s).2 = s := by
  intro map pulse s call
  have hfails : (outcome (perform map call) s).1 =
      .error (.invalidPulse "readout" (.value .addr 4294967296 32)) :=
    Edit.eq_error_of_failure? (by decide +kernel)
  exact ⟨hfails, (perform_atomic map s call hfails).1⟩

end Sequencer.InPlace
end PulseProcessor
