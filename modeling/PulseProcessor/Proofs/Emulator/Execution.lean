import PulseProcessor.Emulator.Run
import PulseProcessor.Proofs.Assembly.Extension
import PulseProcessor.Proofs.Emulator.Instructions
import PulseProcessor.Proofs.Emulator.Machine

/-! # Pieces of an execution

`Machine.Executes` is a stretch of a run that succeeds, with the machines it passes through.  Such
stretches are put together end to end, without counting steps.  Once one has reached a halted
machine, the emulator gets there under every limit that leaves enough steps
(`Emulator.run_of_executes`).
-/

namespace PulseProcessor

open Isa (Decoded Operator decode?)

namespace Machine

/-- The machine after the instruction at its program counter, if that succeeds. -/
def next? (words : Array Word) (m : Machine) : Option Machine :=
  if m.halted then none
  else do
    let word ← words[m.pc]?
    let d ← decode? word
    let e ← (m.effect d).toOption
    return m.apply e

/-- A stretch of a run: the machines in front of its instructions, and the one behind the last. -/
inductive Executes (words : Array Word) : Machine → List Machine → Machine → Prop where
  | refl (m : Machine) : Executes words m [] m
  | step {m m' m'' : Machine} {ms : List Machine} (head : m.next? words = some m')
      (tail : Executes words m' ms m'') : Executes words m (m :: ms) m''

variable {words : Array Word} {m m' m'' : Machine} {ms ms' : List Machine}

theorem Executes.single (h : m.next? words = some m') : Executes words m [m] m' :=
  .step h (.refl m')

theorem Executes.trans (h : Executes words m ms m') (h' : Executes words m' ms' m'') :
    Executes words m (ms ++ ms') m'' := by
  induction h with
  | refl _ => exact h'
  | step head _ ih => exact .step head (ih h')

/-- A stretch begins with the machine it starts from. -/
theorem Executes.exists_cons (h : Executes words m ms m') (hne : ms ≠ []) :
    ∃ tail, ms = m :: tail := by
  cases h with
  | refl _ => contradiction
  | step _ _ => exact ⟨_, rfl⟩

/-- The machine after a number of instructions that succeed. -/
def after? (words : Array Word) : Nat → Machine → Option Machine
  | 0, m => some m
  | n + 1, m => (m.next? words).bind (after? words n)

theorem executes_of_after? {n : Nat} (h : after? words n m = some m') :
    ∃ ms, Executes words m ms m' ∧ ms.length = n := by
  induction n generalizing m with
  | zero =>
    obtain rfl := Option.some.inj h
    exact ⟨[], .refl m, rfl⟩
  | succ n ih =>
    obtain ⟨m₁, hnext, hrest⟩ := Option.bind_eq_some_iff.1 h
    obtain ⟨ms, hms, hlength⟩ := ih hrest
    exact ⟨m :: ms, .step hnext hms, congrArg (· + 1) hlength⟩

/-- Machines that keep between two places, and are at the first one only in the beginning. -/
structure Visits (lo hi : Nat) (ms : List Machine) : Prop where
  between : ∀ x ∈ ms, lo ≤ x.pc ∧ x.pc < hi
  once : ∀ x ∈ ms.tail, lo < x.pc

theorem Visits.append_of_lt {lo mid hi : Nat} (h : Visits lo mid ms)
    (h' : ∀ x ∈ ms', mid ≤ x.pc ∧ x.pc < hi) (hlt : lo < mid) (hle : mid ≤ hi) :
    Visits lo hi (ms ++ ms') where
  between x hx := by
    rcases List.mem_append.1 hx with hx | hx
    · have := h.between x hx
      omega
    · have := h' x hx
      omega
  once x hx := by
    cases ms with
    | nil =>
      have := h' x (List.mem_of_mem_tail hx)
      omega
    | cons y ms =>
      rcases List.mem_append.1 hx with hx | hx
      · exact h.once x hx
      · have := h' x hx
        omega

theorem Visits.append {lo mid hi : Nat} (h : Visits lo mid ms) (h' : Visits mid hi ms')
    (hle : lo ≤ mid) (hle' : mid ≤ hi) : Visits lo hi (ms ++ ms') := by
  rcases Nat.lt_or_eq_of_le hle with hlt | rfl
  · exact h.append_of_lt h'.between hlt hle'
  · have hnil : ms = [] := List.eq_nil_iff_forall_not_mem.2 fun x hx => by
      have := h.between x hx
      omega
    rwa [hnil]

/-- **A stretch of a run from one place down to another.** -/
structure Passage (words : Array Word) (m : Machine) (lo : Nat) (m' : Machine) (hi : Nat)
    (ms : List Machine) : Prop where
  executes : Executes words (m.goto lo) ms (m'.goto hi)
  le : lo ≤ hi
  visits : Visits lo hi ms

namespace Passage

variable {lo mid hi : Nat}

theorem refl (m : Machine) (lo : Nat) : Passage words m lo m lo [] :=
  ⟨.refl _, Nat.le_refl lo, by simp, by simp⟩

theorem single (h : (m.goto lo).next? words = some (m'.goto (lo + 1))) :
    Passage words m lo m' (lo + 1) [m.goto lo] :=
  ⟨.single h, Nat.le_succ lo, by simp, by simp⟩

theorem trans (h : Passage words m lo m' mid ms) (h' : Passage words m' mid m'' hi ms') :
    Passage words m lo m'' hi (ms ++ ms') where
  executes := h.executes.trans h'.executes
  le := Nat.le_trans h.le h'.le
  visits := h.visits.append h'.visits h.le h'.le

end Passage

theorem next?_eq_some {word : Word} {d : Decoded} {e : Effect} (hrun : m.halted = false)
    (hword : words[m.pc]? = some word) (hd : decode? word = some d) (he : m.effect d = .ok e) :
    m.next? words = some (m.apply e) := by
  simp [next?, hrun, hword, hd, he, Except.toOption]

theorem exists_of_next? (h : m.next? words = some m') : m.halted = false ∧
    ∃ word d e, words[m.pc]? = some word ∧ decode? word = some d ∧ m.effect d = .ok e ∧
      m' = m.apply e := by
  unfold next? at h
  split at h
  · contradiction
  · rename_i hrun
    refine ⟨by simpa using hrun, ?_⟩
    obtain ⟨word, hword, h⟩ := Option.bind_eq_some_iff.1 h
    obtain ⟨d, hd, h⟩ := Option.bind_eq_some_iff.1 h
    cases he : m.effect d with
    | error err => simp [he, Except.toOption] at h
    | ok e => exact ⟨word, d, e, hword, hd, he, by simpa [he, Except.toOption, eq_comm] using h⟩

end Machine

/-! ### Runs of the emulator -/

namespace Emulator

variable {e : Emulator} {m' : Machine} {ms : List Machine}

/-- The machines in front of the instructions that a run executes with success. -/
def visited (e : Emulator) : List Machine :=
  if hrun : e.machine.halted then []
  else
    match hstep : e.step with
    | (.error _, _) => []
    | (.ok _, e') =>
      have := remaining_step (by simpa using hrun) hstep
      e.machine :: e'.visited
termination_by e.limit - e.steps

/-- What a step comes to, once its word has been decoded. -/
theorem step_of_decode? {word : Word} {d : Decoded} (hrun : e.machine.halted = false)
    (hlimit : e.steps < e.limit) (hword : e.words[e.machine.pc]? = some word)
    (hd : decode? word = some d) : e.step =
      match (e.machine.effect d).map e.machine.apply with
      | .ok m => (.ok (! m.halted), { e with machine := m, steps := e.steps + 1 })
      | .error err => (.error err, { e with steps := e.steps + 1 }) := by
  have hadvance : e.advance = ((e.machine.effect d).map e.machine.apply, 1) := by
    simp [advance, Nat.not_le.2 hlimit, hword, hd]
  rw [step, hrun, hadvance]
  cases (e.machine.effect d).map e.machine.apply <;> rfl

theorem step_of_next? (hlimit : e.steps < e.limit) (h : e.machine.next? e.words = some m') :
    e.step = (.ok (! m'.halted), { e with machine := m', steps := e.steps + 1 }) := by
  obtain ⟨hrun, word, d, eff, hword, hd, he, rfl⟩ := Machine.exists_of_next? h
  rw [step_of_decode? hrun hlimit hword hd, he]
  rfl

theorem run_of_step {e' : Emulator} {b : Bool} (hrun : e.machine.halted = false)
    (hstep : e.step = (.ok b, e')) :
    e.run = e'.run ∧ e.visited = e.machine :: e'.visited := by
  rw [run, visited, dif_neg (by simp [hrun]), dif_neg (by simp [hrun])]
  constructor
  · split <;> simp_all
  · split <;> simp_all

theorem run_of_halted (hhalt : e.machine.halted = true) : e.run = (.ok (), e) ∧ e.visited = [] := by
  rw [run, visited, dif_pos hhalt, dif_pos hhalt]
  exact ⟨rfl, rfl⟩

/-- A run begins with every stretch that its limit allows, and goes on from there. -/
theorem run_eq_of_executes (h : Machine.Executes e.words e.machine ms m')
    (hlimit : e.steps + ms.length ≤ e.limit) :
    e.run = ({ e with machine := m', steps := e.steps + ms.length } : Emulator).run ∧
      e.visited =
        ms ++ ({ e with machine := m', steps := e.steps + ms.length } : Emulator).visited := by
  -- The emulator changes along the stretch; its machine is what the induction is about.
  generalize hm : e.machine = m at h
  generalize hw : e.words = words at h
  induction h generalizing e with
  | refl m =>
    subst hm hw
    exact ⟨rfl, rfl⟩
  | @step m m₁ m₂ ms head _ ih =>
    subst hm hw
    obtain ⟨hrun, -⟩ := Machine.exists_of_next? head
    rw [List.length_cons] at hlimit
    obtain ⟨hr, hv⟩ := run_of_step hrun (step_of_next? (by omega) head)
    obtain ⟨hr', hv'⟩ := ih (e := { e with machine := m₁, steps := e.steps + 1 })
      (by simp only; omega) rfl rfl
    rw [hr, hv, hr', hv']
    simp [Nat.add_assoc, Nat.add_comm 1]

/-- **A stretch that ends in a halted machine is what the emulator runs.** -/
theorem run_of_executes (h : Machine.Executes e.words e.machine ms m') (hhalt : m'.halted = true)
    (hlimit : e.steps + ms.length ≤ e.limit) :
    e.run = (.ok (), { e with machine := m', steps := e.steps + ms.length }) ∧
      e.visited = ms := by
  obtain ⟨hr, hv⟩ := run_eq_of_executes h hlimit
  obtain ⟨hr', hv'⟩ :=
    run_of_halted (e := { e with machine := m', steps := e.steps + ms.length }) hhalt
  rw [hr, hv, hr', hv', List.append_nil]
  exact ⟨rfl, rfl⟩

/-- A stretch that leads past the last word is all that the emulator runs. -/
theorem run_of_executes_past (h : Machine.Executes e.words e.machine ms m')
    (hrun : m'.halted = false) (hpast : e.words[m'.pc]? = none)
    (hlimit : e.steps + ms.length < e.limit) :
    e.run =
      (.error (.pcOutOfRange m'.pc), { e with machine := m', steps := e.steps + ms.length }) := by
  rw [(run_eq_of_executes h (Nat.le_of_lt hlimit)).1, run, dif_neg (by simp [hrun])]
  have hstep : ({ e with machine := m', steps := e.steps + ms.length } : Emulator).step =
      (.error (.pcOutOfRange m'.pc),
        { e with machine := m', steps := e.steps + ms.length }) := by
    simp [step, advance, hrun, hpast, Nat.not_le.2 hlimit]
  split
  · rename_i hfails
    rw [hstep] at hfails
    cases hfails
    rfl
  · rename_i hfails
    rw [hstep] at hfails
    cases hfails

/-- The same for a new emulator whose first steps are known. -/
theorem run_of_after? {ws : List Word} {n limit : Nat}
    (h : Machine.after? ws.toArray n {} = some m') (hrun : m'.halted = false)
    (hpast : ws[m'.pc]? = none) (hlimit : n < limit) :
    (ofWords ws limit).run =
      (.error (.pcOutOfRange m'.pc), { ofWords ws limit with machine := m', steps := n }) := by
  obtain ⟨ms, hms, hlength⟩ := Machine.executes_of_after? h
  have hresult := run_of_executes_past (e := ofWords ws limit) hms hrun
    (by simpa [ofWords] using hpast) (by simpa [ofWords, hlength] using hlimit)
  simpa [ofWords, hlength] using hresult

end Emulator

/-! ### Straight-line instructions -/

/-- **Control goes on behind the instruction**: it is no jump, and it does not end the program. -/
def Instruction.Straight (i : Instruction) : Prop := i.target? = none ∧ i ≠ .halt

instance (i : Instruction) : Decidable i.Straight := by unfold Instruction.Straight; infer_instance

/-- The register that a straight-line instruction writes. -/
def Instruction.destination? : Instruction → Option Register
  | .regwi page reg _ | .memri page reg _ => some ⟨page, reg⟩
  | .mathi page dst .. | .bitwi page dst .. | .math page dst .. | .bitw page dst ..
  | .memr page dst _ => some ⟨page, dst⟩
  | _ => none

/-- Control goes on behind the instruction, and the given registers are not written. -/
structure Instruction.Spares (kept : List Register) (i : Instruction) : Prop where
  straight : i.Straight
  free : ∀ r ∈ i.destination?, r ∉ kept

/-- What effects the word of a mnemonic has.  Registers are written by seven of them, and the first
two operands say which register. -/
def Effect.Of (d : Decoded) : Effect → Prop
  | .write page reg _ => d.mnemonic ∈ [.regwi, .memri, .mathi, .bitwi, .math, .bitw, .memr] ∧
    page = (d.operand 0).toNat ∧ reg = (d.operand 1).toNat
  | .jump _ | .countedJump .. => d.mnemonic ∈ [.loopnz, .condj]
  | .halt => d.mnemonic = .halt
  | _ => True

namespace Machine

variable {m m' : Machine} {d : Decoded} {e : Effect} {i : Instruction} {p : Program} {pc : Nat}
  {w : Word} {r : Register}

/-- **The effect of a word is one of its mnemonic, and does not depend on the word's place.** -/
theorem effect_spec (h : m.effect d = .ok e) :
    e.Of d ∧ ∀ k, (m.goto k).effect d = .ok e := by
  obtain ⟨mnemonic, word⟩ := d
  cases mnemonic
  case pushi | popi | setbi | setb | read => contradiction
  case regwi | set | seti | synci | sync | waiti | wait | halt =>
    cases h
    exact ⟨by simp [Effect.Of], fun _ => rfl⟩
  case mathi | math | bitwi | bitw | memri | memr =>
    simp only [effect, read_goto, load?_goto] at h ⊢
    split at h
    · cases h
      exact ⟨by simp [Effect.Of], fun _ => rfl⟩
    · contradiction
  case memwi | memw =>
    simp only [effect] at h
    split at h
    · rename_i haddr
      exact ⟨by cases h; trivial, fun _ => (dif_pos haddr).trans h⟩
    · contradiction
  case loopnz =>
    refine ⟨?_, fun _ => h⟩
    simp only [effect, Except.ok.injEq] at h
    split at h <;> subst h <;> simp [Effect.Of]
  case condj =>
    simp only [effect, read_goto] at h ⊢
    split at h
    · rename_i taken _
      refine ⟨?_, fun _ => h⟩
      cases taken <;> cases h <;> simp [Effect.Of]
    · contradiction

/-- **A straight-line instruction, executed wherever it may stand.**  The program counter stays. -/
def perform (i : Instruction) (m : Machine) : Option Machine := do
  let word ← (({} : Program).encodeInstruction 0 i).toOption
  let d ← decode? word
  let e ← (m.effect d).toOption
  return (m.apply e).goto m.pc

end Machine

namespace Instruction.Straight

variable {i : Instruction} {p : Program} {pc : Nat} {w : Word} {m m' : Machine} {e : Effect}

/-- Without a target, an instruction has one word in all programs. -/
theorem encodeInstruction_eq (hi : i.Straight) (h : p.encodeInstruction pc i = .ok w) (q : Program)
    (pc' : Nat) : q.encodeInstruction pc' i = .ok w :=
  Program.encodeInstruction_congr (fun name hname => by simp [hi.1] at hname) h

theorem mnemonic_ne (hi : i.Straight) : i.mnemonic ∉ [.loopnz, .condj, .halt] := by
  obtain ⟨htarget, hhalt⟩ := hi
  cases i <;> simp_all [target?, mnemonic]

/-- A straight-line instruction moves on to the next place and does the rest as at any other. -/
theorem apply_goto (hi : i.Straight) (he : e.Of ⟨i.mnemonic, w⟩) (k : Nat) :
    (m.goto k).apply e = (m.apply e).goto (k + 1) ∧ (m.apply e).halted = m.halted := by
  have hne := hi.mnemonic_ne
  cases e with
  | nothing => exact ⟨rfl, rfl⟩
  | write page reg v =>
    simp only [Machine.apply, Machine.goto, Machine.write_goto, Machine.write_halted, and_self]
  | store addr h v => exact ⟨rfl, rfl⟩
  | jump place => simp_all [Effect.Of]
  | countedJump page reg v place => simp_all [Effect.Of]
  | advance dt => exact ⟨rfl, rfl⟩
  | emit event => exact ⟨rfl, rfl⟩
  | halt => simp_all [Effect.Of]

/-- What performing an instruction comes to, its word being known from some program. -/
theorem exists_effect (hi : i.Straight) (h : p.encodeInstruction pc i = .ok w)
    (hperform : m.perform i = some m') :
    ∃ e, m.effect ⟨i.mnemonic, w⟩ = .ok e ∧ m' = (m.apply e).goto m.pc := by
  have hw : ({} : Program).encodeInstruction 0 i = .ok w := hi.encodeInstruction_eq h {} 0
  have hd : decode? w = some ⟨i.mnemonic, w⟩ := Program.decode?_encodeInstruction h
  unfold Machine.perform at hperform
  cases he : m.effect ⟨i.mnemonic, w⟩ with
  | error err => simp [hw, hd, he, Except.toOption] at hperform
  | ok e => exact ⟨e, rfl, by simpa [hw, hd, he, Except.toOption, eq_comm] using hperform⟩

/-- An instruction that has an effect is performed by it. -/
theorem perform_eq_some (hi : i.Straight) (h : p.encodeInstruction pc i = .ok w)
    (he : m.effect ⟨i.mnemonic, w⟩ = .ok e) : m.perform i = some ((m.apply e).goto m.pc) := by
  have hw := hi.encodeInstruction_eq h {} 0
  have hd := Program.decode?_encodeInstruction h
  simp [Machine.perform, hw, hd, he, Except.toOption]

theorem perform_halted (hi : i.Straight) (h : p.encodeInstruction pc i = .ok w)
    (hperform : m.perform i = some m') : m'.halted = m.halted := by
  obtain ⟨e, he, rfl⟩ := hi.exists_effect h hperform
  exact (hi.apply_goto (Machine.effect_spec he).1 0).2

/-- **Where its word stands, performing an instruction is the step to the next place.** -/
theorem next?_eq_some {words : Array Word} {lo : Nat} (hi : i.Straight)
    (h : p.encodeInstruction pc i = .ok w) (hword : words[lo]? = some w) (hrun : m.halted = false)
    (hperform : m.perform i = some m') : (m.goto lo).next? words = some (m'.goto (lo + 1)) := by
  obtain ⟨e, he, rfl⟩ := hi.exists_effect h hperform
  obtain ⟨hof, heffect⟩ := Machine.effect_spec he
  rw [Machine.next?_eq_some (m := m.goto lo) hrun hword (Program.decode?_encodeInstruction h)
    (heffect lo), (hi.apply_goto hof lo).1]
  rfl

/-- **A write names the destination.** -/
theorem destination?_of_write (h : p.encodeInstruction pc i = .ok w) {page reg : Nat} {v : UInt32}
    (he : (Effect.write page reg v).Of ⟨i.mnemonic, w⟩) :
    ∃ r, i.destination? = some r ∧ r.page.toNat = page ∧ r.number.toNat = reg ∧
      page < 8 ∧ reg < 32 := by
  obtain ⟨hwriter, hpage, hreg⟩ := he
  have hoperands {a b : UInt8} (h0 : i.operands[0]? = some (Instruction.small a))
      (h1 : i.operands[1]? = some (.reg b)) (hk0 : i.mnemonic.layout.kind? 0 = some .page)
      (hk1 : i.mnemonic.layout.kind? 1 = some .register) (hi : i.destination? = some ⟨a, b⟩) :
      ∃ r, i.destination? = some r ∧ r.page.toNat = page ∧ r.number.toNat = reg ∧
        page < 8 ∧ reg < 32 := by
    obtain ⟨ha, hlt⟩ := Program.toNat_operand_page h h0 hk0
    obtain ⟨hb, hlt'⟩ := Program.toNat_operand_reg h h1 hk1
    exact ⟨_, hi, (hpage.trans ha).symm, (hreg.trans hb).symm, by omega, by omega⟩
  -- Either the destination is in the first two operands, or no word of the mnemonic writes.
  cases i
  all_goals first
    | exact hoperands rfl rfl rfl rfl rfl
    | simp [mnemonic] at hwriter

/-- **Performing an instruction leaves all registers alone but its destination.** -/
theorem get_perform (hi : i.Straight) (h : p.encodeInstruction pc i = .ok w)
    (hperform : m.perform i = some m') {r : Register} (hr : r.Valid)
    (hne : i.destination? ≠ some r) : m'.get r = m.get r := by
  obtain ⟨e, he, rfl⟩ := hi.exists_effect h hperform
  have hof := (Machine.effect_spec he).1
  cases e with
  | nothing => rfl
  | write page reg v =>
    obtain ⟨r', hr', rfl, rfl, hp, hn⟩ := destination?_of_write h hof
    have hdiff : r' ≠ r := fun heq => hne (heq ▸ hr')
    rw [ne_eq, Register.eq_iff_toNat] at hdiff
    simp only [Machine.get, Machine.apply, Machine.read_goto]
    rw [Machine.read_write hp hn hr.page_lt hr.number_lt, if_neg (fun hsame => hdiff hsame.2)]
    rfl
  | store addr h v => rfl
  | jump place => rfl
  | countedJump page reg v place =>
    have hjump : i.mnemonic ∈ [.loopnz, .condj] := hof
    have := hi.mnemonic_ne
    simp_all
  | advance dt => rfl
  | emit event => rfl
  | halt => rfl

end Instruction.Straight

/-! ### Instructions at their places -/

namespace Program.At

variable {p : Program} {ws : List Word} {pc : Nat} {i : Instruction} {m m' : Machine}
  {r : Register} {v : Int} {x : UInt32}

theorem next?_eq (hp : p.encode = .ok ws) (h : p.At pc i) : ∃ w, p.encodeInstruction pc i = .ok w ∧
    ∀ {m : Machine} {e : Effect}, m.halted = false → m.effect ⟨i.mnemonic, w⟩ = .ok e →
      (m.goto pc).next? ws.toArray = some ((m.goto pc).apply e) := by
  obtain ⟨w, hword, hw⟩ := h.exists_word hp
  refine ⟨w, hw, fun hrun he => Machine.next?_eq_some hrun (by simpa using hword)
    (decode?_encodeInstruction hw) ((Machine.effect_spec he).2 pc)⟩

/-- **In a program, performing an instruction is the step from its place to the next.** -/
theorem next?_straight (hp : p.encode = .ok ws) (h : p.At pc i) (hi : i.Straight)
    (hrun : m.halted = false) (hperform : m.perform i = some m') :
    (m.goto pc).next? ws.toArray = some (m'.goto (pc + 1)) := by
  obtain ⟨w, hword, hw⟩ := h.exists_word hp
  exact hi.next?_eq_some hw (by simpa using hword) hrun hperform

theorem next?_regwi (hp : p.encode = .ok ws) (h : p.At pc (.regwi r.page r.number v))
    (hrun : m.halted = false) : (m.goto pc).next? ws.toArray =
      some ((m.put r (.ofInt (v.bmod (1 <<< 31)))).goto (pc + 1)) := by
  obtain ⟨w, hw, hnext⟩ := next?_eq hp h
  obtain ⟨-, -, he⟩ := Machine.effect_regwi hw
  rw [hnext hrun (he m)]
  exact congrArg some (Machine.put_goto (m := m) (pc + 1))

theorem next?_mathi (hp : p.encode = .ok ws)
    (h : p.At pc (.mathi r.page r.number r.number (.known .add) v)) (hrun : m.halted = false) :
    (m.goto pc).next? ws.toArray =
      some ((m.put r (m.get r + .ofInt (v.bmod (1 <<< 31)))).goto (pc + 1)) := by
  obtain ⟨w, hw, hnext⟩ := next?_eq hp h
  obtain ⟨-, -, -, o, ho, he⟩ := Machine.effect_mathi hw
  cases ho
  rw [hnext hrun (he m)]
  exact congrArg some (Machine.put_goto (m := m) (pc + 1))

theorem next?_bitwi {o : Operator} (hp : p.encode = .ok ws)
    (h : p.At pc (.bitwi r.page r.number r.number (.known o) v)) (hrun : m.halted = false)
    (hx : bitwise? o.code (m.get r) (.ofInt (v.bmod (1 <<< 31))) = some x) :
    (m.goto pc).next? ws.toArray = some ((m.put r x).goto (pc + 1)) := by
  obtain ⟨w, hw, hnext⟩ := next?_eq hp h
  obtain ⟨-, -, -, o, ho, he⟩ := Machine.effect_bitwi hw
  cases ho
  have he := he m
  rw [← Machine.get, hx] at he
  rw [hnext hrun he]
  exact congrArg some (Machine.put_goto (m := m) (pc + 1))

/-- The same for a register that has just been written. -/
theorem next?_bitwi_put {o : Operator} {y : UInt32} (hp : p.encode = .ok ws) (hr : r.Valid)
    (h : p.At pc (.bitwi r.page r.number r.number (.known o) v)) (hrun : m.halted = false)
    (hx : bitwise? o.code y (.ofInt (v.bmod (1 <<< 31))) = some x) :
    ((m.put r y).goto pc).next? ws.toArray = some ((m.put r x).goto (pc + 1)) := by
  have hnext := h.next?_bitwi hp (m := m.put r y) (x := x) (by simpa using hrun)
    (by rwa [Machine.get_put_self hr])
  rwa [Machine.put_put_self] at hnext

/-- A counted jump counts down to zero, and then lets control go on. -/
theorem next?_loopnz {target : String} (hp : p.encode = .ok ws)
    (h : p.At pc (.loopnz r.page r.number target)) (hrun : m.halted = false) :
    ∃ place, p.labelPc? target = some place ∧ (m.goto pc).next? ws.toArray =
      some (if m.get r = 0 then m.goto (pc + 1) else (m.put r (m.get r - 1)).goto place) := by
  obtain ⟨w, hw, hnext⟩ := next?_eq hp h
  obtain ⟨-, -, place, hplace, he⟩ := Machine.effect_loopnz hw
  refine ⟨place, hplace, ?_⟩
  rw [hnext hrun (he m), ← Machine.get]
  split
  · rfl
  · exact congrArg some (Machine.put_goto (m := m) place)

theorem next?_halt (hp : p.encode = .ok ws) (h : p.At pc .halt) (hrun : m.halted = false) :
    (m.goto pc).next? ws.toArray = some { m with pc := pc + 1, halted := true } := by
  obtain ⟨w, -, hnext⟩ := next?_eq hp h
  exact hnext hrun rfl

end Program.At
end PulseProcessor
