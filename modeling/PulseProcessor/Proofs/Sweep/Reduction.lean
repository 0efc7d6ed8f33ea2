import Mathlib.Data.List.Forall2
import PulseProcessor.Proofs.Sweep.Nest

/-! # Steps modulo `2 ^ 31`

A step is written as an immediate, so of a step that a program has been accepted with no more than
31 bits are left in the words.  The nest whose steps are reduced to what those bits mean
(`LoopNest.reduced`) is written with the same words (`LoopNest.emit_reduced`,
`Program.Spells.encode`); and its steps are narrow, so it runs as the loops it describes.
-/

namespace PulseProcessor

/-! ### Instructions with the same words -/

namespace Isa

theorem narrow_bmod (v : Int) : Narrow (v.bmod (1 <<< 31)) := by
  have hle := Int.le_bmod (x := v) (m := 1 <<< 31) (by decide)
  have hlt := Int.bmod_lt (x := v) (m := 1 <<< 31) (by decide)
  constructor <;> omega

/-- The value that an immediate's pattern means has the same pattern. -/
theorem FieldKind.pattern?_bmod {v : Int} {raw : Word} (h : immediate.pattern? v = some raw) :
    immediate.pattern? (v.bmod (1 <<< 31)) = some raw := by
  obtain ⟨-, rfl⟩ := pattern?_eq_some_iff.1 h
  obtain ⟨hle, hlt⟩ := narrow_bmod v
  refine pattern?_eq_some_iff.2 ⟨⟨hle, ?_⟩, ?_⟩
  · simp only [width]
    omega
  · rw [width, Int.bmod_emod]

end Isa

namespace Instruction

/-- Wherever `i` is accepted `j` is too, with the same word. -/
def SameWord (i j : Instruction) : Prop :=
  ∀ (p : Program) (pc : Nat) (w : Word), p.encodeInstruction pc i = .ok w →
    p.encodeInstruction pc j = .ok w

theorem SameWord.refl (i : Instruction) : i.SameWord i := fun _ _ _ h => h

/-- The number that is added counts modulo `2 ^ 31`. -/
theorem sameWord_mathi (page dst src : UInt8) (op : OperatorRef) (v : Int) :
    SameWord (.mathi page dst src op v) (.mathi page dst src op (v.bmod (1 <<< 31))) := by
  intro p pc w h
  have hpat := Program.pattern?_operand_int h (k := 4) rfl rfl
  have hsame : p.operandPattern pc .mathi 4 (.int (v.bmod (1 <<< 31))) =
      p.operandPattern pc .mathi 4 (.int v) :=
    (Program.operandPattern_eq_ok_iff.2
      ⟨_, .immediate, rfl, rfl, Isa.FieldKind.pattern?_bmod hpat⟩).trans
    (Program.operandPattern_eq_ok_iff.2 ⟨v, .immediate, rfl, rfl, hpat⟩).symm
  simpa only [Program.encodeInstruction, mnemonic, operands, Program.operandPatterns, hsame,
    Nat.reduceAdd] using h

end Instruction

/-! ### Programs with the same words -/

namespace Program

/-- **The same labels, and place by place the same words.** -/
structure Spells (p q : Program) : Prop where
  labels : p.labels = q.labels
  words : List.Forall₂ (fun s s' => s.instruction.SameWord s'.instruction) p.statements.toList
    q.statements.toList

namespace Spells

variable {p q : Program} {i j : Instruction} {ws : List Word}

theorem refl (p : Program) : p.Spells p :=
  ⟨rfl, List.forall₂_same.2 fun s _ => .refl s.instruction⟩

theorem size_eq (h : p.Spells q) : p.size = q.size := by simpa [size] using h.words.length_eq

/-- **Where one program is accepted, the other is accepted with the same words.** -/
theorem encode (h : p.Spells q) (hws : p.encode = .ok ws) : q.encode = .ok ws := by
  have hcongr {pc : Nat} {i : Instruction} {w : Word} (hi : p.encodeInstruction pc i = .ok w) :
      q.encodeInstruction pc i = .ok w :=
    encodeInstruction_congr (fun name _ => by rw [labelPc?, labelPc?, h.labels]) hi
  have hwords := h.words
  unfold Program.encode at hws ⊢
  generalize p.statements.toList = ss, q.statements.toList = ss', (0 : Nat) = pc at hwords hws ⊢
  induction hwords generalizing pc ws with
  | nil => exact hws
  | cons hsame _ ih =>
    obtain ⟨w, rest, hw, hrest, rfl⟩ := encodeFrom_cons_eq_ok_iff.1 hws
    exact encodeFrom_cons_eq_ok_iff.2 ⟨w, rest, hsame _ _ _ (hcongr hw), ih _ hrest, rfl⟩

theorem append (h : p.Spells q) (hij : i.SameWord j) (comment : Option String) :
    (p.append i comment).Spells (q.append j comment) := by
  refine ⟨h.labels, ?_⟩
  simp only [Program.append, Array.toList_push]
  exact List.rel_append h.words (.cons hij .nil)

theorem append_self (h : p.Spells q) (i : Instruction) (comment : Option String) :
    (p.append i comment).Spells (q.append i comment) :=
  h.append (.refl i) comment

theorem loadConstant (h : p.Spells q) (page reg : UInt8) (v : Int) (comment : Option String) :
    (p.loadConstant page reg v comment).Spells (q.loadConstant page reg v comment) := by
  have hboth := (h.append_self (.regwi page reg (v / 4)) comment).append_self
    (.bitwi page reg reg (.known .shl) 2) none
  unfold Program.loadConstant
  split
  · exact h.append_self ..
  · dsimp only
    split
    · exact hboth
    · exact hboth.append_self ..

theorem defineLabel {p' : Program} {name : String} (h : p.Spells q)
    (hp : p.defineLabel name = .ok p') : ∃ q', q.defineLabel name = .ok q' ∧ p'.Spells q' := by
  obtain ⟨hname, hnew, rfl⟩ := defineLabel_eq_ok_iff.1 hp
  refine ⟨_, defineLabel_eq_ok_iff.2 ⟨hname, ?_, rfl⟩, ?_, h.words⟩
  · rwa [labelPc?, ← h.labels]
  · simp only [h.labels, h.size_eq]

end Spells
end Program

/-! ### Reduced sweeps -/

/-- The register with the step that the words of its loop stand for. -/
def SweptRegister.reduced (r : SweptRegister) : SweptRegister :=
  { r with step := r.step.bmod (1 <<< 31) }

theorem SweptRegister.narrow_reduced (r : SweptRegister) : Isa.Narrow r.reduced.step :=
  Isa.narrow_bmod r.step

/-- Narrow steps stay what they are. -/
theorem SweptRegister.reduced_eq_self {r : SweptRegister} (h : Isa.Narrow r.step) :
    r.reduced = r := by
  rw [reduced, h.bmod]

def Sweep.reduced (s : Sweep) : Sweep := { s with registers := s.registers.map (·.reduced) }

theorem Sweep.owned_reduced (s : Sweep) : s.reduced.owned = s.owned := by
  simp [owned, reduced, SweptRegister.reduced]

def LoopNest.reduced : LoopNest → LoopNest
  | done => done
  | code i comment rest => code i comment rest.reduced
  | loop s body rest => loop s.reduced body.reduced rest.reduced

namespace SweepGenerator

variable {g g' inner : SweepGenerator} {p q : Program} {owner : String} {r : Register}
  {rs : List Register} {s : Sweep}

/-- Making a register live does not look at the program. -/
theorem reserve_withProgram (h : g.reserve r owner = .ok g') (q : Program) :
    { g with program := q }.reserve r owner = .ok { g' with program := q } := by
  unfold reserve at h ⊢
  split at h
  · contradiction
  · rename_i hzero
    rw [if_neg hzero]
    dsimp only
    split at h
    · contradiction
    · cases h
      rfl

theorem reserveAll_withProgram (h : g.reserveAll owner rs = .ok g') (q : Program) :
    { g with program := q }.reserveAll owner rs = .ok { g' with program := q } := by
  induction rs generalizing g with
  | nil =>
    cases h
    rfl
  | cons r rs ih =>
    obtain ⟨g₁, hr, h⟩ := bind_eq_ok_iff.1 h
    exact bind_eq_ok_iff.2 ⟨_, reserve_withProgram hr q, ih h⟩

theorem spells_loaded (h : p.Spells q) (s : Sweep) : (loaded p s).Spells (loaded q s.reduced) := by
  have hpreloads : (s.registers.foldl (preload s.name) p).Spells
      (s.reduced.registers.foldl (preload s.name) q) := by
    simp only [Sweep.reduced]
    generalize s.registers = rs
    induction rs generalizing p q with
    | nil => exact h
    | cons r rs ih => exact ih (h.loadConstant ..)
  exact hpreloads.loadConstant ..

theorem spells_advance (h : p.Spells q) (r : SweptRegister) :
    (advance p r).Spells (advance q r.reduced) := by
  obtain ⟨⟨page, reg⟩, start, step, width⟩ := r
  have hadd := h.append (Instruction.sameWord_mathi page reg reg (.known .add) step) none
  unfold advance SweptRegister.reduced
  dsimp only
  by_cases hfull : width ≥ registerWidth
  · rw [if_pos hfull, if_pos hfull]
    exact hadd
  rw [if_neg hfull, if_neg hfull]
  by_cases hshift : width = 31
  · rw [if_pos hshift, if_pos hshift]
    exact (hadd.append_self ..).append_self ..
  · rw [if_neg hshift, if_neg hshift]
    exact hadd.append_self ..

theorem spells_leave {outer outer' : SweepGenerator} (h : g.program.Spells g'.program) (s : Sweep) :
    (g.leave outer s).program.Spells (g'.leave outer' s.reduced).program := by
  have hadvances : (s.registers.foldl advance g.program).Spells
      (s.reduced.registers.foldl advance g'.program) := by
    simp only [Sweep.reduced]
    generalize s.registers = rs, g.program = p, g'.program = q at h ⊢
    induction rs generalizing p q with
    | nil => exact h
    | cons r rs ih => exact ih _ _ (spells_advance h r)
  exact hadvances.append_self ..

/-- How a loop is opened. -/
theorem enter_of_eq_ok (hcount : s.count ≠ 0) (hlive : g.reserveAll s.name s.owned = .ok g')
    (hlabel : (loaded g'.program s).defineLabel s.name = .ok p) :
    g.enter s = .ok { g' with program := p } := by
  unfold enter
  rw [if_neg hcount]
  exact bind_eq_ok_iff.2 ⟨g', hlive, bind_eq_ok_iff.2 ⟨p, hlabel, rfl⟩⟩

/-- A loop is opened in the same words if its steps are reduced. -/
theorem enter_reduced (h : g.enter s = .ok inner) (hq : g.program.Spells q) :
    ∃ q', { g with program := q }.enter s.reduced = .ok { inner with program := q' } ∧
      inner.program.Spells q' := by
  have hcount := (enter_eq_ok h).1
  unfold enter at h
  rw [if_neg hcount] at h
  obtain ⟨g₁, hlive, h⟩ := bind_eq_ok_iff.1 h
  obtain ⟨p', hlabel, h⟩ := bind_eq_ok_iff.1 h
  obtain rfl := Except.ok.inj h
  obtain ⟨-, -, hprogram, -⟩ := reserveAll_eq_ok hlive
  obtain ⟨q', hq', hspells⟩ := (spells_loaded (hprogram ▸ hq) s).defineLabel hlabel
  have hlive' := reserveAll_withProgram hlive q
  rw [← s.owned_reduced] at hlive'
  have henter := enter_of_eq_ok (s := s.reduced) hcount hlive' hq'
  exact ⟨q', henter, hspells⟩

end SweepGenerator

namespace LoopNest

/-- **A nest is written in the same words if its steps are reduced.** -/
theorem emit_reduced {t : LoopNest} {g g' : SweepGenerator} {q : Program} (h : t.emit g = .ok g')
    (hq : g.program.Spells q) :
    ∃ q', t.reduced.emit { g with program := q } = .ok { g' with program := q' } ∧
      g'.program.Spells q' := by
  induction t generalizing g g' q with
  | done =>
    cases h
    exact ⟨q, rfl, hq⟩
  | code i comment rest ih =>
    rw [emit] at h
    obtain ⟨q', hemit, hq'⟩ := ih h (hq.append_self i comment)
    exact ⟨q', hemit, hq'⟩
  | loop s body rest ihbody ihrest =>
    obtain ⟨inner, inner', henter, hbody, hrest⟩ := emit_loop_eq_ok h
    obtain ⟨q₁, henter', hq₁⟩ := SweepGenerator.enter_reduced henter hq
    obtain ⟨q₂, hbody', hq₂⟩ := ihbody hbody hq₁
    have hleave : (inner'.leave g s).program.Spells
        (({ inner' with program := q₂ } : SweepGenerator).leave g s.reduced).program :=
      SweepGenerator.spells_leave hq₂ s
    obtain ⟨q₃, hrest', hq₃⟩ := ihrest hrest hleave
    refine ⟨q₃, ?_, hq₃⟩
    rw [reduced, emit, SweepGenerator.run_sweep, henter']
    change ((body.reduced.emit { inner with program := q₁ }).map _).bind _ = _
    rw [hbody']
    exact hrest'

end LoopNest
end PulseProcessor
