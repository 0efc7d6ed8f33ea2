import Mathlib.Algebra.Group.Int.Defs
import Mathlib.Algebra.Group.Nat.Defs
import Mathlib.Data.Prod.Lex
import PulseProcessor.Proofs.Assembly.Encoding
import PulseProcessor.Proofs.Assembly.Parts

/-! # What encoding refuses

Encoding knows of an operand only its place in the operand list, and looks up in the instruction
table what kind of field it goes to.  Here every operand has a role, which is read off the typed
instruction, and the range that goes with it.  The two agree for all mnemonics (`kind?_roles`), so a
program encodes exactly if every operand can be represented in its role, and otherwise the first one
that cannot is told: the one of the least place and, there, of the least index
(`Program.encode_exact`).
-/

namespace PulseProcessor

open Isa (Mnemonic FieldKind Operator)

/-! ### Roles -/

/-- What stands in an instruction, with what it is there for. -/
inductive Role where
  | page (n : UInt8)
  | channel (n : UInt8)
  | register (n : UInt8)
  | operator (o : OperatorRef)
  | immediate (v : Int)
  | target (name : String)
  deriving DecidableEq, Repr

namespace Role

def operand : Role → Operand
  | page n | channel n => Instruction.small n
  | register n => .reg n
  | operator o => .op o
  | immediate v => .int v
  | target name => .label name

def kind : Role → FieldKind
  | page _ => .page
  | channel _ => .channel
  | register _ => .register
  | operator _ => .operator
  | immediate _ => .immediate
  | target _ => .target

end Role

namespace Instruction

/-- What stands in an instruction, in the order of its operands. -/
def roles : Instruction → List Role
  | pushi page dst src imm => [.page page, .register dst, .register src, .immediate imm]
  | popi page reg => [.page page, .register reg]
  | mathi page dst src op imm =>
    [.page page, .register dst, .register src, .operator op, .immediate imm]
  | seti channel page reg t => [.channel channel, .page page, .register reg, .immediate t]
  | synci t => [.immediate t]
  | waiti channel t => [.channel channel, .immediate t]
  | bitwi page dst src op imm =>
    [.page page, .register dst, .register src, .operator op, .immediate imm]
  | memri page reg addr => [.page page, .register reg, .immediate addr]
  | memwi page reg addr => [.page page, .register reg, .immediate addr]
  | regwi page reg imm => [.page page, .register reg, .immediate imm]
  | setbi page reg imm => [.page page, .register reg, .immediate imm]
  | loopnz page reg target => [.page page, .register reg, .target target]
  | condj page lhs op rhs target =>
    [.page page, .register lhs, .operator op, .register rhs, .target target]
  | halt => []
  | math page dst lhs op rhs =>
    [.page page, .register dst, .register lhs, .operator op, .register rhs]
  | set channel page freq phase addr gain mode t =>
    [.channel channel, .page page, .register freq, .register phase, .register addr,
      .register gain, .register mode, .register t]
  | sync page reg => [.page page, .register reg]
  | read channel page op reg => [.channel channel, .page page, .operator op, .register reg]
  | wait channel page reg => [.channel channel, .page page, .register reg]
  | bitw page dst lhs op rhs =>
    [.page page, .register dst, .register lhs, .operator op, .register rhs]
  | memr page dst addr => [.page page, .register dst, .register addr]
  | memw page src addr => [.page page, .register src, .register addr]
  | setb page src addr => [.page page, .register src, .register addr]

theorem operands_eq_roles (i : Instruction) : i.operands = i.roles.map Role.operand := by
  cases i <;> rfl

theorem all_kind?_roles (i : Instruction) :
    i.roles.zipIdx.all (fun rk => i.mnemonic.layout.kind? rk.2 == some rk.1.kind) = true := by
  cases i <;> rfl

/-- **The table looks up for every operand the kind that its role has.** -/
theorem kind?_roles {i : Instruction} {k : Nat} {r : Role} (h : i.roles[k]? = some r) :
    i.mnemonic.layout.kind? k = some r.kind := by
  have hmem : (r, k) ∈ i.roles.zipIdx := by
    rw [List.mem_zipIdx_iff_getElem?]
    exact h
  simpa using List.all_eq_true.1 i.all_kind?_roles _ hmem

end Instruction

/-! ### Patterns in their fields -/

namespace Isa

/-- Every field holds an operand that the mnemonic takes. -/
theorem Mnemonic.operand_lt_arity (m : Mnemonic) : ∀ f ∈ m.layout.fields, f.operand < m.arity := by
  cases m <;> decide

/-- A pattern has no bits above its width. -/
theorem shiftRight_width {raw : Word} {n : Nat} (hn : n < 64) (h : raw.toNat < 1 <<< n) :
    raw >>> UInt64.ofNat n = 0 := by
  rw [Nat.one_shiftLeft] at h
  apply UInt64.toNat_inj.1
  have hwidth : n % 2 ^ 64 % 64 = n := by omega
  rw [UInt64.toNat_shiftRight, UInt64.toNat_ofNat', hwidth, Nat.shiftRight_eq_div_pow,
    Nat.div_eq_of_lt h]
  rfl

/-- A pattern that fits its field stands there as it is. -/
theorem Field.place_shiftRight_offset {f : Field} (hf : f.offset + f.width ≤ 56) {raw : Word}
    (h : raw.toNat < 1 <<< f.width) : f.place raw >>> UInt64.ofNat f.offset = raw := by
  have hextract := extract_place hf h
  rwa [extract, place, UInt64.and_assoc, UInt64.and_self] at hextract

end Isa

/-! ### Operands that can be represented -/

namespace Program

variable {p : Program} {pc k : Nat} {m : Mnemonic} {r : Role} {e : AssemblyError}

/-- **What stands in an instruction can be represented in a word**, with the labels of `p`. -/
def Represents (p : Program) : Role → Prop
  | .page n | .channel n => n < 8
  | .register n => n < 32
  | .operator o => ∃ op : Operator, o.text = op.symbol
  | .immediate v => -2 ^ 30 ≤ v ∧ v < 2 ^ 31
  | .target name => ∃ place, p.labelPc? name = some place ∧ place < 2 ^ 16

/-- What is said of operand `k` of the instruction at `pc` if it cannot be represented. -/
def complaint (p : Program) (pc : Nat) (m : Mnemonic) (k : Nat) : Role → AssemblyError
  | .page n | .channel n => .fieldOverflow m k n.toNat 3
  | .register n => .fieldOverflow m k n.toNat 5
  | .operator o => .unknownOperator o.text
  | .immediate v => .fieldOverflow m k v 31
  | .target name =>
    match p.labelPc? name with
    | none => .unresolvedLabel name pc m
    | some place => .fieldOverflow m k place 16

instance (p : Program) (r : Role) : Decidable (p.Represents r) := by
  cases r with
  | operator o =>
    exact decidable_of_iff (Operator.all.any (o.text == ·.symbol) = true)
      (by simp [Represents, Operator.mem_all])
  | target name =>
    exact decidable_of_iff ((p.labelPc? name).any (· < 2 ^ 16) = true)
      (by simp [Represents, Option.any_eq_true])
  | _ => unfold Represents; infer_instance

/-- What is wrong with operand `k`, if anything is. -/
def objection? (p : Program) (pc : Nat) (m : Mnemonic) (k : Nat) (r : Role) :
    Option AssemblyError :=
  if p.Represents r then none else some (p.complaint pc m k r)

/-! ### One operand -/

theorem resolve_of_text_eq {o : OperatorRef} {op : Operator} (h : o.text = op.symbol) :
    o.resolve = .ok op := by
  have hsymbol : Operator.ofSymbol? o.text = some op := by rw [h, Operator.ofSymbol?_symbol]
  cases o with
  | known op' =>
    rw [OperatorRef.text, Operator.ofSymbol?_symbol] at hsymbol
    exact congrArg Except.ok (Option.some.inj hsymbol)
  | symbol s =>
    rw [OperatorRef.text] at hsymbol
    rw [OperatorRef.resolve, hsymbol]

theorem resolve_eq_error {o : OperatorRef} (h : ¬ ∃ op : Operator, o.text = op.symbol) :
    o.resolve = .error (.unknownOperator o.text) := by
  cases o with
  | known op => exact absurd ⟨op, rfl⟩ h
  | symbol s =>
    have hnone : Operator.ofSymbol? s = none :=
      List.find?_eq_none.2 fun op _ hop => h ⟨op, (beq_iff_eq.1 hop).symm⟩
    rw [OperatorRef.resolve, hnone]
    rfl

/-- An operand with a value is refused exactly if the value does not fit the field. -/
theorem fault?_operandPattern_of_value {v : Int} (hkind : m.layout.kind? k = some r.kind)
    (hv : p.operandValue pc m r.operand = .ok v) (hfits : p.Represents r ↔ r.kind.Fits v)
    (hsaid : ¬ p.Represents r → p.complaint pc m k r = .fieldOverflow m k v r.kind.width) :
    fault? (p.operandPattern pc m k r.operand) = p.objection? pc m k r := by
  simp only [operandPattern, hkind, hv, bind, Except.bind]
  by_cases h : p.Represents r
  · rw [objection?, if_pos h, FieldKind.pattern?, if_pos (hfits.1 h)]
    rfl
  · rw [objection?, if_neg h, hsaid h, FieldKind.pattern?, if_neg (mt hfits.2 h)]
    rfl

/-- An operand without value is refused for that. -/
theorem fault?_operandPattern_of_fault (hv : p.operandValue pc m r.operand = .error e)
    (hnot : ¬ p.Represents r) (hsaid : p.complaint pc m k r = e) :
    fault? (p.operandPattern pc m k r.operand) = p.objection? pc m k r := by
  rw [objection?, if_neg hnot, hsaid, operandPattern, hv]
  rfl

/-- **An operand is refused exactly if it cannot be represented in its role.** -/
theorem fault?_operandPattern (hkind : m.layout.kind? k = some r.kind) :
    fault? (p.operandPattern pc m k r.operand) = p.objection? pc m k r := by
  cases r with
  | page n | channel n | register n =>
    refine fault?_operandPattern_of_value (v := n.toNat) hkind rfl ?_ fun _ => rfl
    simp only [Represents, Role.kind, FieldKind.Fits, FieldKind.least, FieldKind.width,
      UInt8.lt_iff_toNat_lt, UInt8.reduceToNat]
    omega
  | immediate v =>
    refine fault?_operandPattern_of_value hkind rfl ?_ fun _ => rfl
    simp [Represents, Role.kind, FieldKind.Fits, FieldKind.least, FieldKind.width]
  | operator o =>
    by_cases ho : p.Represents (.operator o)
    · obtain ⟨op, hop⟩ := ho
      have hcode : FieldKind.operator.Fits op.code := by cases op <;> decide
      have hvalue : p.operandValue pc m (.op o) = .ok op.code := by
        rw [operandValue, resolve_of_text_eq hop]
        rfl
      exact fault?_operandPattern_of_value hkind hvalue ⟨fun _ => hcode, fun _ => ⟨op, hop⟩⟩
        fun hnot => absurd ⟨op, hop⟩ hnot
    · have hvalue : p.operandValue pc m (.op o) = .error (.unknownOperator o.text) := by
        rw [operandValue, resolve_eq_error ho]
        rfl
      exact fault?_operandPattern_of_fault hvalue ho rfl
  | target name =>
    cases hpc : p.labelPc? name with
    | none =>
      refine fault?_operandPattern_of_fault (e := .unresolvedLabel name pc m) ?_ ?_ ?_
      · simp only [Role.operand, operandValue, hpc]
      · simp [Represents, hpc]
      · simp only [complaint, hpc]
    | some place =>
      refine fault?_operandPattern_of_value (v := place) hkind ?_ ?_ ?_
      · simp only [Role.operand, operandValue, hpc]
      · simp only [Represents, Role.kind, FieldKind.Fits, FieldKind.least, FieldKind.width, hpc,
          Option.some.injEq, exists_eq_left']
        omega
      · simp only [complaint, hpc]
        exact fun _ => rfl

/-! ### All operands of all statements -/

theorem fault?_operandPatterns {rs : List Role}
    (hkind : ∀ j r, rs[j]? = some r → m.layout.kind? (k + j) = some r.kind) :
    fault? (p.operandPatterns pc m k (rs.map Role.operand)) =
      firstFault? (p.objection? pc m) k rs := by
  induction rs generalizing k with
  | nil => rfl
  | cons r rs ih =>
    have hrest := ih (k := k + 1) fun j r' hr' => by
      rw [Nat.add_assoc, Nat.add_comm 1]
      exact hkind (j + 1) r' (by simpa using hr')
    rw [List.map_cons, operandPatterns, firstFault?_cons]
    refine fault?_bind (fault?_operandPattern (hkind 0 r rfl)) fun raw => ?_
    rw [← hrest]
    exact fault?_map _ _

/-- **An instruction is refused for the first of its operands that cannot be represented.** -/
theorem fault?_encodeInstruction (i : Instruction) : fault? (p.encodeInstruction pc i) =
    firstFault? (p.objection? pc i.mnemonic) 0 i.roles := by
  rw [encodeInstruction, fault?_map, i.operands_eq_roles]
  exact fault?_operandPatterns fun j r hr => by
    rw [Nat.zero_add]
    exact Instruction.kind?_roles hr

/-- **A program is refused for the first statement that has such an operand.** -/
theorem fault?_encode : fault? p.encode = firstFault?
    (fun pc s => firstFault? (p.objection? pc s.instruction.mnemonic) 0 s.instruction.roles) 0
    p.statements.toList := by
  rw [encode, fault?_encodeFrom]
  simp only [fault?_encodeInstruction]

/-! ### Whole programs -/

/-- At a place and index there is an operand that cannot be represented. -/
def Unrepresented (p : Program) (x : ℕ ×ₗ ℕ) : Prop :=
  ∃ s r, p.statements[(ofLex x).1]? = some s ∧
    s.instruction.roles[(ofLex x).2]? = some r ∧ ¬ p.Represents r

/-- **What encoding accepts, and what it says of the rest.** -/
structure Screened (p : Program) : Prop where
  /-- A program has words exactly if all its operands can be represented. -/
  accepted : (∃ ws, p.encode = .ok ws) ↔
    ∀ s ∈ p.statements.toList, ∀ r ∈ s.instruction.roles, p.Represents r
  /-- There is one word for each statement. -/
  words : ∀ ws, p.encode = .ok ws → ws.length = p.size
  /-- Otherwise the operand of the least place and index that cannot be represented is told. -/
  refused : ∀ e, p.encode = .error e ↔ ∃ pc k s r,
    IsLeast {x | p.Unrepresented x} (toLex (pc, k)) ∧ p.statements[pc]? = some s ∧
      s.instruction.roles[k]? = some r ∧ e = p.complaint pc s.instruction.mnemonic k r
  /-- Operands are never found to be too many. -/
  counted : ∀ m expected found, p.encode ≠ .error (.operandCount m expected found)
  /-- Words are put together without losing a bit of any operand. -/
  placed : ∀ pc i w, p.encodeInstruction pc i = .ok w →
    ∃ raws, p.operandPatterns pc i.mnemonic 0 i.operands = .ok raws ∧
      w = pack i.mnemonic.layout raws ∧ ∀ f ∈ i.mnemonic.layout.fields,
        ∃ raw, raws[f.operand]? = some raw ∧ raw >>> UInt64.ofNat f.width = 0 ∧
          f.place raw >>> UInt64.ofNat f.offset = raw

theorem objection?_eq_some_iff :
    p.objection? pc m k r = some e ↔ ¬ p.Represents r ∧ e = p.complaint pc m k r := by
  unfold objection?
  split <;> simp_all [eq_comm]

theorem objection?_eq_none_iff : p.objection? pc m k r = none ↔ p.Represents r := by
  unfold objection?
  split <;> simp_all

theorem exists_encode_iff : (∃ ws, p.encode = .ok ws) ↔
    ∀ s ∈ p.statements.toList, ∀ r ∈ s.instruction.roles, p.Represents r := by
  rw [← fault?_eq_none_iff, fault?_encode]
  simp only [firstFault?_eq_none_iff, objection?_eq_none_iff, List.mem_iff_getElem?]
  constructor
  · rintro h s ⟨pc, hs⟩ r ⟨k, hr⟩
    exact h pc s hs k r hr
  · intro h pc s hs k r hr
    exact h s ⟨pc, hs⟩ r ⟨k, hr⟩

theorem encode_eq_error_iff : p.encode = .error e ↔ ∃ pc k s r,
    IsLeast {x | p.Unrepresented x} (toLex (pc, k)) ∧ p.statements[pc]? = some s ∧
      s.instruction.roles[k]? = some r ∧ e = p.complaint pc s.instruction.mnemonic k r := by
  rw [← fault?_eq_some_iff, fault?_encode]
  simp only [firstFault?_eq_some_iff, firstFault?_eq_none_iff, objection?_eq_some_iff,
    objection?_eq_none_iff, Array.getElem?_toList, Nat.zero_add]
  constructor
  · rintro ⟨pc, s, hs, ⟨k, r, hr, ⟨hnot, rfl⟩, hindex⟩, hplace⟩
    refine ⟨pc, k, s, r, ⟨⟨s, r, hs, hr, hnot⟩, ?_⟩, hs, hr, rfl⟩
    rintro ⟨pc', k'⟩ ⟨s', r', hs', hr', hnot'⟩
    -- An earlier operand would be of an earlier statement, or of this one and before this operand.
    refine Prod.Lex.toLex_le_toLex.2 ?_
    rcases Nat.lt_trichotomy pc pc' with hlt | rfl | hlt
    · exact .inl hlt
    · obtain rfl : s = s' := Option.some.inj (hs.symm.trans hs')
      refine .inr ⟨rfl, Nat.not_lt.1 fun hk => hnot' (hindex k' hk r' hr')⟩
    · exact absurd (hplace pc' hlt s' hs' k' r' hr') hnot'
  · rintro ⟨pc, k, s, r, ⟨⟨s', r', hs', hr', hnot⟩, hleast⟩, hs, hr, rfl⟩
    obtain rfl : s = s' := Option.some.inj (hs.symm.trans hs')
    obtain rfl : r = r' := Option.some.inj (hr.symm.trans hr')
    have hbefore {j i : Nat} {s' : Statement} {r' : Role} (hs' : p.statements[j]? = some s')
        (hr' : s'.instruction.roles[i]? = some r') (hlt : toLex (j, i) < toLex (pc, k)) :
        p.Represents r' := by
      by_contra hnot'
      have hmem : toLex (j, i) ∈ {x | p.Unrepresented x} := ⟨s', r', hs', hr', hnot'⟩
      exact absurd (hleast hmem) (not_le_of_gt hlt)
    refine ⟨pc, s, hs, ⟨k, r, hr, ⟨hnot, rfl⟩, fun i hi r' hr' => ?_⟩,
      fun j hj s' hs' i r' hr' => ?_⟩
    · exact hbefore hs hr' (Prod.Lex.toLex_lt_toLex.2 (.inr ⟨rfl, hi⟩))
    · exact hbefore hs' hr' (Prod.Lex.toLex_lt_toLex.2 (.inl hj))

/-- No complaint is about the number of operands. -/
theorem complaint_ne_operandCount {m' : Mnemonic} {expected found : Nat} :
    p.complaint pc m k r ≠ .operandCount m' expected found := by
  cases r with
  | target name => cases h : p.labelPc? name <;> simp [complaint, h]
  | _ => simp [complaint]

theorem placed_of_encodeInstruction {i : Instruction} {w : Word}
    (h : p.encodeInstruction pc i = .ok w) :
    ∃ raws, p.operandPatterns pc i.mnemonic 0 i.operands = .ok raws ∧
      w = pack i.mnemonic.layout raws ∧ ∀ f ∈ i.mnemonic.layout.fields,
        ∃ raw, raws[f.operand]? = some raw ∧ raw >>> UInt64.ofNat f.width = 0 ∧
          f.place raw >>> UInt64.ofNat f.offset = raw := by
  obtain ⟨raws, hraws, hw⟩ := encodeInstruction_eq_ok_iff.1 h
  refine ⟨raws, hraws, hw.symm, fun f hf => ?_⟩
  have hinside := i.mnemonic.separated.inside f hf
  have hoperand : f.operand < raws.length := by
    rw [(operandPatterns_eq_ok hraws).1, i.length_operands]
    exact i.mnemonic.operand_lt_arity f hf
  have hfits := patternsFit_of_operandPatterns hraws f hf
  rw [List.getD_eq_getElem?_getD, List.getElem?_eq_getElem hoperand, Option.getD_some] at hfits
  exact ⟨_, List.getElem?_eq_getElem hoperand, Isa.shiftRight_width (by omega) hfits,
    Isa.Field.place_shiftRight_offset hinside hfits⟩

/-- **Encoding accepts exactly the programs that can be represented, and names the first operand
that cannot.** -/
theorem encode_exact (p : Program) : p.Screened where
  accepted := exists_encode_iff
  words _ := length_encode
  refused _ := encode_eq_error_iff
  counted m expected found h := by
    obtain ⟨pc, k, s, r, -, -, -, hsaid⟩ := encode_eq_error_iff.1 h
    exact complaint_ne_operandCount hsaid.symm
  placed _ _ _ := placed_of_encodeInstruction

/-- Of the two faulty operands of the first statement the register is told, though the table has the
operator's field in front of it. -/
example :
    let p : Program := { statements := #[⟨.bitwi 0 40 1 (.symbol "=>") 0, none⟩,
      ⟨.loopnz 0 1 "NOWHERE", none⟩] }
    p.encode = .error (.fieldOverflow .bitwi 1 40 5) := by decide

end Program
end PulseProcessor
