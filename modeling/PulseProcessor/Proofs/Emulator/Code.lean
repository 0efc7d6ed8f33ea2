import PulseProcessor.Proofs.Assembly.Additions

/-! # Code at its place

A list of straight-line instructions does the same wherever it stands in a program: control goes
through it from its beginning to its end, and the machine becomes what performing one instruction
after the other makes of it (`Program.passage_performAll`).

Of the registers, an instruction of any kind changes none but the one it writes
(`Program.At.get_next?`).  `Machine.stored?` is the word of data memory that the instruction at the
program counter writes, and what it writes there.  The stores of a run can be read off the machines
it passes through.
-/

namespace PulseProcessor

open Isa (Decoded Mnemonic decode?)
open Machine (Passage)

/-! ### Performing code -/

/-- Instructions, one after the other, as at any place. -/
def Machine.performAll (m : Machine) (code : List Instruction) : Option Machine :=
  code.foldlM (fun m i => m.perform i) m

section
variable {words : Array Word} {q : Program} {ws : List Word} {code : List Instruction} {lo : Nat}
  {m m' : Machine}

/-- **Words one behind the other do what their instructions do.** -/
theorem Machine.passage_performAll (hs : ∀ i ∈ code, i.Straight)
    (hwords : ∀ (k : Nat) i, code[k]? = some i →
      ∃ w, words[lo + k]? = some w ∧ ({} : Program).encodeInstruction 0 i = .ok w)
    (hrun : m.halted = false) (hperform : m.performAll code = some m') :
    ∃ ms, Passage words m lo m' (lo + code.length) ms ∧ ms.length = code.length ∧
      m'.halted = false ∧ ∀ r : Register, r.Valid →
        (∀ i ∈ code, i.destination? ≠ some r) → m'.get r = m.get r := by
  induction code generalizing lo m with
  | nil =>
    cases hperform
    exact ⟨[], .refl _ lo, rfl, hrun, fun _ _ _ => rfl⟩
  | cons i code ih =>
    obtain ⟨m₁, hfirst, hrest⟩ := Option.bind_eq_some_iff.1 hperform
    rw [List.forall_mem_cons] at hs
    obtain ⟨w, hword, hw⟩ := hwords 0 i rfl
    have htail : ∀ (k : Nat) i', code[k]? = some i' →
        ∃ w', words[lo + 1 + k]? = some w' ∧ ({} : Program).encodeInstruction 0 i' = .ok w' :=
      fun k i' hi' => by
        have := hwords (k + 1) i' hi'
        rwa [← Nat.add_assoc, Nat.add_right_comm] at this
    obtain ⟨ms, hpass, hlength, hrun', hget⟩ :=
      ih hs.2 htail ((hs.1.perform_halted hw hfirst).trans hrun) hrest
    refine ⟨m.goto lo :: ms, ?_, congrArg (· + 1) hlength, hrun', fun r hr hfree => ?_⟩
    · rw [List.length_cons, ← Nat.add_assoc, Nat.add_right_comm]
      exact (Passage.single (hs.1.next?_eq_some hw hword hrun hfirst)).trans hpass
    · rw [List.forall_mem_cons] at hfree
      rw [hget r hr hfree.2]
      exact hs.1.get_perform hw hfirst hr hfree.1

/-- **Code at its place does what its instructions do.** -/
theorem Program.passage_performAll (hq : q.encode = .ok ws) (hs : ∀ i ∈ code, i.Straight)
    (hat : ∀ (k : Nat) i, code[k]? = some i → q.At (lo + k) i) (hrun : m.halted = false)
    (hperform : m.performAll code = some m') :
    ∃ ms, Passage ws.toArray m lo m' (lo + code.length) ms ∧ m'.halted = false ∧
      ∀ r : Register, r.Valid → (∀ i ∈ code, i.destination? ≠ some r) → m'.get r = m.get r := by
  have hwords : ∀ (k : Nat) i, code[k]? = some i →
      ∃ w, ws.toArray[lo + k]? = some w ∧ ({} : Program).encodeInstruction 0 i = .ok w :=
    fun k i hi => by
      obtain ⟨w, hword, hw⟩ := (hat k i hi).exists_word hq
      exact ⟨w, by simpa using hword,
        (hs i (List.mem_of_getElem? hi)).encodeInstruction_eq hw {} 0⟩
  obtain ⟨ms, hms, -, hafter⟩ := Machine.passage_performAll hs hwords hrun hperform
  exact ⟨ms, hms, hafter⟩

end

/-! ### Writes -/

namespace Program

variable {p : Program} {pc : Nat} {i : Instruction} {w : Word} {ws : List Word} {m m' : Machine}
  {r : Register}

/-- Only a counted jump counts, and it does so in the register that it names. -/
theorem written?_of_countedJump {page reg place : Nat} {v : UInt32}
    (h : p.encodeInstruction pc i = .ok w)
    (he : m.effect ⟨i.mnemonic, w⟩ = .ok (.countedJump page reg v place)) :
    ∃ r, i.written? = some r ∧ r.page.toNat = page ∧ r.number.toNat = reg ∧
      page < 8 ∧ reg < 32 := by
  have hof := (Machine.effect_spec he).1
  cases i
  case loopnz a b target =>
    obtain ⟨ha, hb, _, -, heffect⟩ := Machine.effect_loopnz h
    have hsame := (heffect m).symm.trans he
    split at hsame <;> cases hsame
    exact ⟨⟨a, b⟩, rfl, rfl, rfl, ha, hb⟩
  case condj =>
    obtain ⟨-, -, -, _, _, -, -, heffect⟩ := Machine.effect_condj h
    obtain ⟨taken, -, hsame⟩ := map_eq_ok_iff.1 ((heffect m).symm.trans he)
    cases taken <;> cases hsame
  all_goals simp [Effect.Of, Instruction.mnemonic] at hof

/-- **An instruction that is executed leaves all registers alone but the one it writes.** -/
theorem At.get_next? (hp : p.encode = .ok ws) (h : p.At m.pc i)
    (hnext : m.next? ws.toArray = some m') (hr : r.Valid) (hne : i.written? ≠ some r) :
    m'.get r = m.get r := by
  obtain ⟨w, hword, hw⟩ := h.exists_word hp
  obtain ⟨-, word, d, e, hword', hd, he, rfl⟩ := Machine.exists_of_next? hnext
  obtain rfl : w = word := by simpa [hword] using hword'
  rw [decode?_encodeInstruction hw, Option.some.injEq] at hd
  subst hd
  have hother {page reg : Nat} {v : UInt32} (k : Nat) (hwrites : ∃ r' : Register,
      i.written? = some r' ∧ r'.page.toNat = page ∧ r'.number.toNat = reg ∧ page < 8 ∧ reg < 32) :
      ((m.goto k).write page reg v).get r = m.get r := by
    obtain ⟨r', hr', rfl, rfl, hpage, hnumber⟩ := hwrites
    have hdiff : r' ≠ r := fun hsame => hne (hsame ▸ hr')
    rw [ne_eq, Register.eq_iff_toNat] at hdiff
    rw [Machine.get, Machine.read_write hpage hnumber hr.page_lt hr.number_lt,
      if_neg fun hsame => hdiff hsame.2]
    rfl
  cases e with
  | write page reg v =>
    obtain ⟨r', hr', hrest⟩ :=
      Instruction.Straight.destination?_of_write hw (Machine.effect_spec he).1
    exact hother _ ⟨r', Instruction.written?_of_destination? hr', hrest⟩
  | countedJump page reg v place => exact hother _ (written?_of_countedJump hw he)
  | nothing | store | jump | advance | emit | halt => rfl

/-- **Code that writes certain registers leaves the others alone**, in whatever program it is. -/
theorem AddsOnly.get_next? {rs : List Register} {q q' : Program}
    (h : AddsOnly (·.Writes rs) q q') (hq' : q'.Extends p) (hp : p.encode = .ok ws)
    (hlo : q.size ≤ m.pc) (hhi : m.pc < q'.size) (hnext : m.next? ws.toArray = some m')
    (hr : r.Valid) (hfree : r ∉ rs) : m'.get r = m.get r := by
  have hlt : m.pc < p.size := Nat.lt_of_lt_of_le hhi hq'.size_le
  have hat : p.At m.pc p.statements[m.pc].instruction := ⟨_, Array.getElem?_eq_getElem hlt⟩
  obtain ⟨r', hr', hwritten⟩ := h.between hq' hlo hhi hat
  refine hat.get_next? hp hnext hr fun hsame => hfree ?_
  rw [hwritten, Option.some.injEq] at hsame
  exact hsame ▸ hr'

end Program

/-! ### Stores -/

namespace Machine

variable {m : Machine} {d : Decoded} {i : Instruction} {q : Program} {ws : List Word} {pc : Nat}

/-- What the instruction at the program counter writes to data memory: address and value. -/
def stored? (words : Array Word) (m : Machine) : Option (Nat × UInt32) := do
  let word ← words[m.pc]?
  let d ← decode? word
  let e ← (m.effect d).toOption
  match e with
  | .store addr _ v => some (addr, v)
  | _ => none

/-- Memory is written by the words of two mnemonics. -/
theorem mnemonic_of_store {addr : Nat} {h : addr < 1024} {v : UInt32}
    (he : m.effect d = .ok (.store addr h v)) : d.mnemonic = .memwi ∨ d.mnemonic = .memw := by
  obtain ⟨mnemonic, word⟩ := d
  cases mnemonic
  case memwi => exact .inl rfl
  case memw => exact .inr rfl
  case pushi | popi | setbi | setb | read => contradiction
  case regwi | set | seti | synci | sync | waiti | wait | halt => cases he
  case mathi | math | bitwi | bitw | memri | memr =>
    simp only [effect] at he
    split at he <;> cases he
  case loopnz =>
    simp only [effect, Except.ok.injEq] at he
    split at he <;> cases he
  case condj =>
    simp only [effect] at he
    split at he
    · rename_i taken _
      cases taken <;> cases he
    · contradiction

theorem stores_of_mnemonic (h : i.mnemonic = .memwi ∨ i.mnemonic = .memw) : i.stores = true := by
  cases i
  case memwi | memw => rfl
  all_goals rcases h with h | h <;> cases h

/-- **Where no storing instruction stands, nothing is stored.** -/
theorem stored?_eq_none (hq : q.encode = .ok ws) (h : ∀ i, q.At m.pc i → i.stores = false) :
    m.stored? ws.toArray = none := by
  unfold stored?
  cases hword : ws.toArray[m.pc]? with
  | none => rfl
  | some word =>
    have hlt : m.pc < q.size := by
      rw [← Program.length_encode hq]
      simpa using (Array.getElem?_eq_some_iff.1 hword).1
    have hat : q.At m.pc q.statements[m.pc].instruction :=
      ⟨_, Array.getElem?_eq_getElem hlt⟩
    have hsilent := h _ hat
    generalize q.statements[m.pc].instruction = i at hat hsilent
    obtain ⟨w, hw, henc⟩ := hat.exists_word hq
    obtain rfl : w = word := by simpa [hw] using hword
    have hd := Program.decode?_encodeInstruction henc
    cases he : m.effect ⟨i.mnemonic, w⟩ with
    | error e => simp [hd, he, Except.toOption]
    | ok e =>
      cases e
      case store addr haddr v =>
        rw [stores_of_mnemonic (mnemonic_of_store he)] at hsilent
        contradiction
      all_goals simp [hd, he, Except.toOption]

theorem stored?_goto_eq_none (hq : q.encode = .ok ws) (h : q.At pc i) (hi : i.stores = false) :
    (m.goto pc).stored? ws.toArray = none :=
  stored?_eq_none hq fun i' hat => by
    rw [goto_pc, Program.at_iff, Program.at_iff.1 h, Option.some.injEq] at hat
    rwa [← hat]

/-- A store to a fixed address. -/
theorem stored?_memwi {r : Register} {addr : Nat} (hq : q.encode = .ok ws)
    (h : q.At pc (.memwi r.page r.number addr)) (haddr : addr < 1024) :
    (m.goto pc).stored? ws.toArray = some (addr, m.get r) := by
  obtain ⟨w, hw, henc⟩ := h.exists_word hq
  obtain ⟨-, -, he⟩ := effect_memwi henc (Int.natCast_nonneg addr)
  have hd : decode? w = some ⟨.memwi, w⟩ := Program.decode?_encodeInstruction henc
  have he := he (m.goto pc)
  rw [storeEffect, Int.toNat_natCast, dif_pos haddr] at he
  simp [stored?, hw, hd, he, Except.toOption, get]

end Machine

/-! ### Steps through memory, time and channels -/

/-- A channel update is recorded. -/
def Machine.emit (m : Machine) (e : Event) : Machine := { m with events := m.events.push e }

/-- The time offset moves on. -/
def Machine.wait (m : Machine) (dt : Int) : Machine := { m with timeOffset := m.timeOffset + dt }

namespace Program.At

variable {q : Program} {ws : List Word} {m : Machine} {pc : Nat} {r : Register} {channel : UInt8}
  {t : Int}

theorem next?_memwi {addr : Nat} (hq : q.encode = .ok ws)
    (h : q.At pc (.memwi r.page r.number addr)) (haddr : addr < 1024) (hrun : m.halted = false) :
    (m.goto pc).next? ws.toArray =
      some ({ m with memory := m.memory.set addr (m.get r) haddr }.goto (pc + 1)) := by
  obtain ⟨w, hw, hnext⟩ := next?_eq hq h
  obtain ⟨-, -, he⟩ := Machine.effect_memwi hw (Int.natCast_nonneg addr)
  have he := he m
  rw [Machine.storeEffect, Int.toNat_natCast, dif_pos haddr] at he
  rw [hnext hrun he]
  rfl

theorem next?_synci (hq : q.encode = .ok ws) (h : q.At pc (.synci t)) (hrun : m.halted = false) :
    (m.goto pc).next? ws.toArray =
      some ((m.wait (t.bmod (1 <<< 31))).goto (pc + 1)) := by
  obtain ⟨w, hw, hnext⟩ := next?_eq hq h
  rw [hnext hrun (Machine.effect_synci hw m)]
  rfl

theorem next?_seti (hq : q.encode = .ok ws) (h : q.At pc (.seti channel r.page r.number t))
    (hrun : m.halted = false) : (m.goto pc).next? ws.toArray =
      some ((m.emit (.seti channel (t.bmod (1 <<< 31) + m.timeOffset) (m.get r))).goto
        (pc + 1)) := by
  obtain ⟨w, hw, hnext⟩ := next?_eq hq h
  obtain ⟨-, -, he⟩ := Machine.effect_seti hw
  rw [hnext hrun (he m)]
  rfl

theorem next?_set {page freq phase addr gain mode time : UInt8} (hq : q.encode = .ok ws)
    (h : q.At pc (.set channel page freq phase addr gain mode time)) (hrun : m.halted = false) :
    (m.goto pc).next? ws.toArray =
      some ((m.emit (.set channel ((m.get ⟨page, time⟩).toNat + m.timeOffset) (m.get ⟨page, freq⟩)
        (m.get ⟨page, phase⟩) (m.get ⟨page, addr⟩) (m.get ⟨page, gain⟩)
        (m.get ⟨page, mode⟩))).goto (pc + 1)) := by
  obtain ⟨w, hw, hnext⟩ := next?_eq hq h
  obtain ⟨-, -, he⟩ := Machine.effect_set hw
  rw [hnext hrun (he m)]
  rfl

end Program.At
end PulseProcessor
