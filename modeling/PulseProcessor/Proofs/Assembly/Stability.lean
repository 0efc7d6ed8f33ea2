import Mathlib.Control.Monad.Basic
import PulseProcessor.Proofs.Pulse.Atomicity
import PulseProcessor.Proofs.Sweep.Atomicity

/-! # Words stay what they are

A word depends on the labels of its program, and labels may be defined after they are used.  Still a
program that has words keeps them whatever is done to it next (`Program.Constructs.encode_stable`).
What has been encoded has found its label, and no operation gives that label another place or takes
it away: operations define labels and append instructions, and what a failed one undoes lies behind
the place where it began.

"Whatever is done" are the edits of `Program.Constructs`: any computation that looks at what it
holds, goes on where an operation has failed, and opens sequencers and generators on the program, in
the body of a sweep as well.
-/

namespace PulseProcessor
namespace Program

open Edit (outcome Keeps)

variable {p q : Program} {pc : Nat}

/-! ### Programs that go on -/

theorem Extends.operandValue (h : p.Extends q) {m : Isa.Mnemonic} {o : Operand} {v : Int}
    (hv : p.operandValue pc m o = .ok v) : q.operandValue pc m o = .ok v := by
  cases o with
  | label name =>
    rw [Program.operandValue] at hv ⊢
    cases hname : p.labelPc? name with
    | none => simp [hname] at hv
    | some target =>
      rw [h.labelPc? hname]
      simpa [hname] using hv
  | int _ => exact hv
  | reg _ => exact hv
  | op _ => exact hv

theorem Extends.encodeInstruction (h : p.Extends q) {i : Instruction} {w : Word}
    (hw : p.encodeInstruction pc i = .ok w) : q.encodeInstruction pc i = .ok w :=
  encodeInstruction_mono (fun _ _ _ => h.operandValue) hw

/-- **A program has the words of another one**, and its own fault, if there is one, behind them. -/
structure KeepsWords (p : Program) (ws : List Word) (q : Program) : Prop where
  stands : ∀ pc s, p.statements[pc]? = some s → q.statements[pc]? = some s ∧
    ∃ w, ws[pc]? = some w ∧ q.encodeInstruction pc s.instruction = .ok w
  encoded : ∀ ws', q.encode = .ok ws' → ws <+: ws'
  /-- The error that is reported is that of the first instruction without a word. -/
  refused : ∀ e, q.encode = .error e → ∃ pc s, p.size ≤ pc ∧ q.statements[pc]? = some s ∧
    q.encodeInstruction pc s.instruction = .error e ∧
      ∀ k s', k < pc → q.statements[k]? = some s' →
        ∃ w, q.encodeInstruction k s'.instruction = .ok w

theorem Extends.keepsWords (h : p.Extends q) {ws : List Word} (hp : p.encode = .ok ws) :
    p.KeepsWords ws q := by
  have hstands : ∀ pc s, p.statements[pc]? = some s → q.statements[pc]? = some s ∧
      ∃ w, ws[pc]? = some w ∧ q.encodeInstruction pc s.instruction = .ok w := by
    intro pc s hs
    obtain ⟨w, hw, henc⟩ := exists_word hp hs
    exact ⟨h.getElem? hs, w, hw, h.encodeInstruction henc⟩
  refine ⟨hstands, fun ws' hq => ?_, fun e hq => ?_⟩
  · rw [List.prefix_iff_getElem?]
    intro pc hpc
    have hlt : pc < p.statements.size := by
      rw [length_encode hp] at hpc
      exact hpc
    obtain ⟨hsame, w, hw, henc⟩ := hstands pc _ (Array.getElem?_eq_getElem hlt)
    obtain ⟨w', hw', henc'⟩ := exists_word hq hsame
    rw [henc, Except.ok.injEq] at henc'
    rw [hw', ← henc', ← hw, List.getElem?_eq_getElem hpc]
  · obtain ⟨pc, s, hs, hfails, hbefore⟩ := encode_eq_error hq
    refine ⟨pc, s, ?_, hs, hfails, hbefore⟩
    refine Nat.le_of_not_lt fun hlt => ?_
    have hlt' : pc < p.statements.size := hlt
    obtain ⟨hsame, w, -, henc⟩ := hstands pc _ (Array.getElem?_eq_getElem hlt')
    rw [hsame, Option.some.injEq] at hs
    rw [hs, hfails] at henc
    cases henc

/-! ### Holders of a program -/

/-- **What has a program under construction in it**, and what it is for one of its states to go on
where another one ends. -/
structure Holder (σ : Type) where
  program : σ → Program
  Extends : σ → σ → Prop
  refl : ∀ s, Extends s s
  trans : ∀ s t u, Extends s t → Extends t u → Extends s u
  extends_program : ∀ s t, Extends s t → (program s).Extends (program t)

namespace Holder

/-- A program on its own. -/
def plain : Holder Program where
  program p := p
  Extends := Program.Extends
  refl := Program.Extends.refl
  trans _ _ _ := Program.Extends.trans
  extends_program _ _ h := h

def sequencer : Holder Sequencer where
  program := (·.program)
  Extends s t := s.program.Extends t.program
  refl s := .refl s.program
  trans _ _ _ := Program.Extends.trans
  extends_program _ _ h := h

def generator : Holder SweepGenerator where
  program := (·.program)
  Extends := SweepGenerator.Extends
  refl := SweepGenerator.Extends.refl
  trans _ _ _ := SweepGenerator.Extends.trans
  extends_program _ _ h := h.program

end Holder

/-! ### Construction -/

/-- **What may be done to a program under construction**: anything that is built from the operations
of programs, sequencers and generators.  It may look at what it holds, act on what it sees, fail on
its own account, and pass over an error.  On a program it may open sequencers and generators; in the
hands of these, and so in the body of a sweep, the program is one like any other. -/
inductive Constructs : {σ α : Type} → Holder σ → Edit σ α → Prop
  | pure {σ α : Type} {H : Holder σ} (a : α) : Constructs H (pure a)
  | throw {σ α : Type} {H : Holder σ} (e : AssemblyError) : Constructs H (throw e : Edit σ α)
  | get {σ : Type} {H : Holder σ} : Constructs H get
  | bind {σ α β : Type} {H : Holder σ} {e : Edit σ α} {f : α → Edit σ β} (he : Constructs H e)
      (hf : ∀ a, Constructs H (f a)) : Constructs H (e >>= f)
  | attempt {σ α : Type} {H : Holder σ} {e : Edit σ α} (he : Constructs H e) :
      Constructs H e.attempt
  | append (i : Instruction) (comment : Option String) :
      Constructs .plain (InPlace.append i comment)
  | loadConstant (page reg : UInt8) (v : Int) (comment : Option String) :
      Constructs .plain (InPlace.loadConstant page reg v comment)
  | defineLabel (name : String) : Constructs .plain (InPlace.defineLabel name)
  | sequencer {α : Type} {e : Edit Sequencer α} (he : Constructs .sequencer e) :
      Constructs .plain (Sequencer.InPlace.session e)
  | perform (map : ChannelMap) (call : Sequencer.Call) :
      Constructs .sequencer (Sequencer.InPlace.perform map call)
  | onSequencer {α : Type} {e : Edit Program α} (he : Constructs .plain e) :
      Constructs .sequencer (Sequencer.InPlace.onProgram e)
  | generator {α : Type} {e : Edit SweepGenerator α} (he : Constructs .generator e) :
      Constructs .plain (SweepGenerator.InPlace.session e)
  | reserve (r : Register) (owner : String) :
      Constructs .generator (SweepGenerator.InPlace.reserve r owner)
  | sweep {body : Edit SweepGenerator Unit} (hbody : Constructs .generator body) (s : Sweep) :
      Constructs .generator (SweepGenerator.InPlace.sweep s body)
  | onGenerator {α : Type} {e : Edit Program α} (he : Constructs .plain e) :
      Constructs .generator (SweepGenerator.InPlace.onProgram e)

namespace Constructs

variable {σ α : Type} {H : Holder σ} {e : Edit σ α}

theorem keeps_defineLabel (name : String) :
    Keeps Holder.plain.Extends (InPlace.defineLabel name) := by
  refine .of_settled Program.Extends.refl (InPlace.outcome_defineLabel name) fun p _ q hq => ?_
  obtain ⟨labelled, hlabel, heq⟩ := map_eq_ok_iff.1 hq
  cases heq
  exact extends_defineLabel hlabel

theorem keeps_perform (map : ChannelMap) (call : Sequencer.Call) :
    Keeps Holder.sequencer.Extends (Sequencer.InPlace.perform map call) := by
  refine .of_settled Holder.sequencer.refl (Sequencer.InPlace.outcome_perform map call)
    fun s _ t ht => ?_
  obtain ⟨result, hresult, heq⟩ := map_eq_ok_iff.1 ht
  cases heq
  exact (Sequencer.writes_perform hresult).extends

theorem keeps_reserve (r : Register) (owner : String) :
    Keeps Holder.generator.Extends (SweepGenerator.InPlace.reserve r owner) := by
  refine .of_settled SweepGenerator.Extends.refl (SweepGenerator.InPlace.outcome_reserve r owner)
    fun g _ g' hg' => ?_
  obtain ⟨taken, htaken, heq⟩ := map_eq_ok_iff.1 hg'
  cases heq
  exact SweepGenerator.extends_reserve htaken

/-- **Whatever is done, and whatever comes of it**, it is done behind what there was. -/
theorem keeps (h : Constructs H e) : Keeps H.Extends e := by
  induction h with
  | @pure _ _ H a => exact .of_eq H.refl fun _ => rfl
  | @throw _ _ H e => exact .of_eq H.refl fun _ => rfl
  | @get _ H => exact .of_eq H.refl fun _ => rfl
  | @bind _ _ _ H _ _ _ _ ihe ihf => exact ihe.bind H.trans ihf
  | attempt _ ih => exact ih.attempt
  | append i comment => exact fun p => extends_append ..
  | loadConstant page reg v comment =>
    intro p
    rw [InPlace.outcome_loadConstant]
    exact (Grows.of_loadConstant ..).extends
  | defineLabel name => exact keeps_defineLabel name
  | sequencer _ ih => exact fun p => ih { program := p }
  | perform map call => exact keeps_perform map call
  | onSequencer _ ih => exact fun s => ih s.program
  | generator _ ih => exact fun p => (ih { program := p }).program
  | reserve r owner => exact keeps_reserve r owner
  | sweep _ s ih => exact SweepGenerator.InPlace.keeps_sweep ih s
  | onGenerator _ ih => exact fun g => ⟨ih g.program, List.prefix_rfl⟩

/-- **Words are stable.**  If a program has words, then whatever is done to it, successes, failures
and what they undo, every instruction of it goes on standing at its place with its word.  So the
words of the program that comes out of it begin with the old ones; and if that program has none, the
instruction that is to blame is a later one. -/
theorem encode_stable (h : Constructs H e) (s : σ) {ws : List Word}
    (hencode : (H.program s).encode = .ok ws) :
    (H.program s).KeepsWords ws (H.program (outcome e s).2) :=
  (H.extends_program _ _ (h.keeps s)).keepsWords hencode

/-- Behind a loop a label is refused that exists already.  A sweep is undone, with the pulse in its
body, and a second one goes well.  If a jump to nowhere follows, it is the one that is reported. -/
theorem encode_stable_loop :
    let map : ChannelMap := ⟨RegisterMap.standard.channels, RegisterMap.standard.widths⟩
    let pulse : Pulse :=
      { channel := 1, name := "drive", style := .constant, freq := 7, phase := 0, gain := 100
        length := 20 }
    let play := Sequencer.InPlace.session (Sequencer.InPlace.perform map (.pulse pulse .auto))
    let body (last : String) : Edit SweepGenerator Unit := do
      let _ ← SweepGenerator.InPlace.onProgram play
      SweepGenerator.InPlace.onProgram (InPlace.defineLabel last)
    let scan : Sweep := { name := "SCAN", count := 3, counter := ⟨0, 1⟩ }
    let edit (last : Instruction) : Edit Program Nat := do
      let _ ← (InPlace.defineLabel "LOOP").attempt
      SweepGenerator.InPlace.session do
        let _ ← (SweepGenerator.InPlace.sweep scan (body "LOOP")).attempt
        SweepGenerator.InPlace.sweep scan (body "AFTER")
      InPlace.append last
    let p : Program :=
      { statements :=
          #[⟨.regwi 0 14 2, none⟩, ⟨.synci 5, some "kept"⟩, ⟨.loopnz 0 14 "LOOP", none⟩]
        labels := #[("LOOP", 1)] }
    let ws : List Word := [0x19001c0000000002, 0x1400000000000005, 0x30021ce000000001]
    (∀ last, Constructs .plain (edit last)) ∧ p.encode = .ok ws ∧
      (∃ ws', (outcome (edit .halt) p).2.encode = .ok ws' ∧ ws <+: ws' ∧ ws'.length = 13) ∧
      ∃ pc s, 3 ≤ pc ∧ (outcome (edit (.loopnz 0 14 "NOWHERE")) p).2.statements[pc]? = some s ∧
        (outcome (edit (.loopnz 0 14 "NOWHERE")) p).2.encodeInstruction pc s.instruction =
          .error (.unresolvedLabel "NOWHERE" 12 .loopnz) := by
  intro map pulse play body scan edit p ws
  have hplay : Constructs .plain play := .sequencer (.perform ..)
  have hbody (last : String) : Constructs .generator (body last) :=
    .bind (.onGenerator hplay) fun _ => .onGenerator (.defineLabel last)
  have hedit (last : Instruction) : Constructs .plain (edit last) :=
    .bind (.attempt (.defineLabel "LOOP")) fun _ => .bind
      (.generator (.bind (.attempt (.sweep (hbody "LOOP") scan)) fun _ =>
        .sweep (hbody "AFTER") scan)) fun _ => .append last none
  have hencode : p.encode = .ok ws := by decide +kernel
  refine ⟨hedit, hencode, ?_, ?_⟩
  · have hlater : ∃ ws', (outcome (edit .halt) p).2.encode = .ok ws' ∧ ws'.length = 13 :=
      exists_ok (by decide +kernel)
    obtain ⟨ws', hws', hlength⟩ := hlater
    exact ⟨ws', hws', (encode_stable (hedit .halt) p hencode).encoded ws' hws', hlength⟩
  · have hfails : (outcome (edit (.loopnz 0 14 "NOWHERE")) p).2.encode =
        .error (.unresolvedLabel "NOWHERE" 12 .loopnz) := by decide +kernel
    obtain ⟨pc, s, hpc, hs, herror, -⟩ :=
      (encode_stable (hedit (.loopnz 0 14 "NOWHERE")) p hencode).refused _ hfails
    exact ⟨pc, s, hpc, hs, herror⟩

end Constructs
end Program
end PulseProcessor
