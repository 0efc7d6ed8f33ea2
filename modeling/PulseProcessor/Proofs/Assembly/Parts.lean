import Mathlib.Order.Bounds.Basic
import PulseProcessor.Proofs.Assembly.Exactness
import PulseProcessor.Proofs.Assembly.Fault

/-! # The two views of an instruction

`Instruction.mnemonic` and `Instruction.operands` take an instruction apart, `Instruction.ofParts`
puts one together.  It reads one operand after the other and stops at the first one that does not
do, so what it complains about is a search through the operands (`fault?_ofParts`).  What an operand
has to be is said by the instruction table, which `ofParts` itself looks at for its messages only.
-/

namespace PulseProcessor

open Isa (Mnemonic FieldKind)

/-! ### Operands that are admitted -/

/-- **An operand may stand where a field of this kind is asked for**: it is written in the form of
that kind, and the number of a page or of a channel is one byte. -/
def Operand.Admitted : FieldKind → Operand → Prop
  | .page, .int v | .channel, .int v => 0 ≤ v ∧ v ≤ 255
  | .register, .reg _ | .operator, .op _ | .immediate, .int _ | .target, .label _ => True
  | _, _ => False

instance (kind : FieldKind) (o : Operand) : Decidable (o.Admitted kind) := by
  unfold Operand.Admitted
  split <;> infer_instance

namespace Instruction

variable {m : Mnemonic} {k : Nat} {kind : FieldKind} {o : Operand} {os : List Operand}
  {i : Instruction}

/-- What is said of operand `k` if its field does not admit it: a number that is no byte does not
fit, and anything else is of the wrong kind. -/
def rejection (m : Mnemonic) (k : Nat) (kind : FieldKind) (o : Operand) : AssemblyError :=
  match kind, o with
  | .page, .int v | .channel, .int v => .fieldOverflow m k v kind.width
  | _, _ => .operandKind m k kind

/-- What is wrong with operand `k`, if anything is. -/
def objection? (m : Mnemonic) (k : Nat) (o : Operand) : Option AssemblyError :=
  (m.layout.kind? k).bind fun kind => if o.Admitted kind then none else some (rejection m k kind o)

theorem objection?_of_kind? (h : m.layout.kind? k = some kind) :
    objection? m k o = if o.Admitted kind then none else some (rejection m k kind o) := by
  rw [objection?, h]
  rfl

theorem objection?_eq_some_iff {e : AssemblyError} : objection? m k o = some e ↔
    ∃ kind, m.layout.kind? k = some kind ∧ ¬ o.Admitted kind ∧ e = rejection m k kind o := by
  simp only [objection?, Option.bind_eq_some_iff]
  refine exists_congr fun kind => and_congr_right fun _ => ?_
  split <;> simp_all [eq_comm]

theorem objection?_eq_none_iff : objection? m k o = none ↔
    ∀ kind, m.layout.kind? k = some kind → o.Admitted kind := by
  rw [Option.eq_none_iff_forall_ne_some]
  simp only [ne_eq, objection?_eq_some_iff]
  constructor
  · intro h kind hkind
    by_contra hnot
    exact h _ ⟨kind, hkind, hnot, rfl⟩
  · rintro h e ⟨kind, hkind, hnot, -⟩
    exact hnot (h kind hkind)

/-! ### Readers of one operand -/

theorem readInt_eq_ok_iff {v : Int} : readInt m k o = .ok v ↔ o = .int v := by
  cases o <;> simp [readInt]

theorem readReg_eq_ok_iff {n : UInt8} : readReg m k o = .ok n ↔ o = .reg n := by
  cases o <;> simp [readReg]

theorem readOp_eq_ok_iff {op : OperatorRef} : readOp m k o = .ok op ↔ o = .op op := by
  cases o <;> simp [readOp]

theorem readLabel_eq_ok_iff {name : String} : readLabel m k o = .ok name ↔ o = .label name := by
  cases o <;> simp [readLabel]

theorem readSmall_int (v : Int) : readSmall m k (.int v) =
    if 0 ≤ v ∧ v < 256 then .ok (UInt8.ofNat v.toNat)
    else .error (.fieldOverflow m k v (expectedKind m k).width) := by
  simp only [readSmall, readInt, bind, Except.bind]
  split <;> rfl

/-- A page or channel number is in the range that is read as one. -/
theorem readSmall_small (m : Mnemonic) (k : Nat) (n : UInt8) : readSmall m k (small n) = .ok n := by
  have hlt := n.toNat_lt
  rw [small, readSmall_int, if_pos (by omega)]
  simp

theorem readSmall_eq_ok_iff {n : UInt8} : readSmall m k o = .ok n ↔ o = small n := by
  constructor
  · intro h
    obtain ⟨v, hv, -⟩ := bind_eq_ok_iff.1 h
    obtain rfl := readInt_eq_ok_iff.1 hv
    rw [readSmall_int] at h
    split at h
    · rename_i hrange
      have hlt : v.toNat < 256 := by omega
      have hn : (UInt8.ofNat v.toNat).toNat = v.toNat := UInt8.toNat_ofNat_of_lt' hlt
      rw [← Except.ok.inj h, small, hn, Int.toNat_of_nonneg hrange.1]
    · contradiction
  · rintro rfl
    exact readSmall_small m k n

section
variable (o)

theorem fault?_readSmall (h : m.layout.kind? k = some kind)
    (hsmall : kind = .page ∨ kind = .channel) : fault? (readSmall m k o) = objection? m k o := by
  have hexpected : expectedKind m k = kind := by rw [expectedKind, h, Option.getD_some]
  rw [objection?_of_kind? h]
  cases o with
  | int v =>
    have hadmitted : (Operand.int v).Admitted kind ↔ 0 ≤ v ∧ v < 256 := by
      rcases hsmall with rfl | rfl <;> simp only [Operand.Admitted] <;> omega
    have hrejection : rejection m k kind (.int v) = .fieldOverflow m k v kind.width := by
      rcases hsmall with rfl | rfl <;> rfl
    rw [readSmall_int, hexpected, hrejection]
    split <;> simp_all [fault?]
  | reg _ | label _ | op _ =>
    rcases hsmall with rfl | rfl <;>
      simp [readSmall, readInt, Operand.Admitted, rejection, hexpected, fault?, bind, Except.bind]

theorem fault?_readReg (h : m.layout.kind? k = some .register) :
    fault? (readReg m k o) = objection? m k o := by
  rw [objection?_of_kind? h]
  cases o <;> simp [readReg, Operand.Admitted, rejection, expectedKind, h, fault?]

theorem fault?_readOp (h : m.layout.kind? k = some .operator) :
    fault? (readOp m k o) = objection? m k o := by
  rw [objection?_of_kind? h]
  cases o <;> simp [readOp, Operand.Admitted, rejection, expectedKind, h, fault?]

theorem fault?_readInt (h : m.layout.kind? k = some .immediate) :
    fault? (readInt m k o) = objection? m k o := by
  rw [objection?_of_kind? h]
  cases o <;> simp [readInt, Operand.Admitted, rejection, expectedKind, h, fault?]

theorem fault?_readLabel (h : m.layout.kind? k = some .target) :
    fault? (readLabel m k o) = objection? m k o := by
  rw [objection?_of_kind? h]
  cases o <;> simp [readLabel, Operand.Admitted, rejection, expectedKind, h, fault?]

end

/-! ### All operands -/

/-- **An instruction that is taken apart can be put together again.** -/
theorem ofParts_operands (i : Instruction) : ofParts i.mnemonic i.operands = .ok i := by
  cases i
  all_goals simp only [mnemonic, operands, ofParts, readSmall_small]
  all_goals rfl

/-- **An instruction made of parts has these parts.** -/
theorem parts_of_ofParts (h : ofParts m os = .ok i) : i.mnemonic = m ∧ i.operands = os := by
  unfold ofParts at h
  split at h
  all_goals first
    | contradiction
    | simp only [bind_eq_ok_iff, readInt_eq_ok_iff, readReg_eq_ok_iff, readOp_eq_ok_iff,
        readLabel_eq_ok_iff, readSmall_eq_ok_iff, pure, Except.pure, Except.ok.injEq] at h
      -- What is read of an operand says what the operand is.
      repeat obtain ⟨_, rfl, h⟩ := h
      exact ⟨rfl, rfl⟩

/-- A list of operands that has the wrong length is refused for that. -/
theorem ofParts_of_length_ne (h : os.length ≠ m.arity) :
    ofParts m os = .error (.operandCount m m.arity os.length) := by
  unfold ofParts
  split
  case h_24 => rfl
  all_goals exact absurd rfl h

/-- **Operands are read in their order, each as the table says.** -/
theorem fault?_ofParts (h : os.length = m.arity) :
    fault? (ofParts m os) = firstFault? (objection? m) 0 os := by
  cases m
  case halt =>
    obtain rfl := List.length_eq_zero_iff.1 h
    rfl
  all_goals
    -- The row of the table comes down to a number, and the list to that many operands.
    simp only [Mnemonic.arity, Isa.Layout.arity, Mnemonic.layout, List.map_cons, List.map_nil,
      List.foldl_cons, List.foldl_nil, Nat.zero_add, Nat.reduceAdd, Nat.reduceLeDiff, Nat.zero_le,
      zero_le_one, sup_of_le_right, sup_of_le_left] at h
    repeat
      obtain ⟨o, os, rfl⟩ := List.exists_cons_of_length_eq_add_one h
      replace h := Nat.succ.inj h
    obtain rfl := List.length_eq_zero_iff.1 h
    simp only [ofParts, firstFault?_cons, firstFault?_nil]
    repeat' first
      | rfl
      | refine fault?_bind ?_ fun _ => ?_
      | exact fault?_readSmall _ rfl (by simp)
      | exact fault?_readReg _ rfl
      | exact fault?_readOp _ rfl
      | exact fault?_readInt _ rfl
      | exact fault?_readLabel _ rfl

/-- Operand `k` is there, and its field does not admit it. -/
def Misplaced (m : Mnemonic) (os : List Operand) (k : Nat) : Prop :=
  ∃ o kind, os[k]? = some o ∧ m.layout.kind? k = some kind ∧ ¬ o.Admitted kind

/-- **What comes of a mnemonic and a list of operands.** -/
structure Composes (m : Mnemonic) (os : List Operand) : Prop where
  /-- They make the instruction that they are the parts of, and no other. -/
  parts : ∀ i, ofParts m os = .ok i ↔ i.mnemonic = m ∧ i.operands = os
  /-- They make one exactly if there are as many operands as the mnemonic takes, all admitted. -/
  accepted : (∃ i, ofParts m os = .ok i) ↔ os.length = m.arity ∧
    ∀ k o kind, os[k]? = some o → m.layout.kind? k = some kind → o.Admitted kind
  /-- If they make none, it is for their number or else for the first operand that is misplaced. -/
  refused : ∀ e, ofParts m os = .error e ↔
    (os.length ≠ m.arity ∧ e = .operandCount m m.arity os.length) ∨
      (os.length = m.arity ∧ ∃ k o kind, IsLeast {k | Misplaced m os k} k ∧ os[k]? = some o ∧
        m.layout.kind? k = some kind ∧ e = rejection m k kind o)

theorem ofParts_eq_ok_iff : ofParts m os = .ok i ↔ i.mnemonic = m ∧ i.operands = os := by
  constructor
  · exact parts_of_ofParts
  · rintro ⟨rfl, rfl⟩
    exact ofParts_operands i

theorem exists_ofParts_iff (h : os.length = m.arity) : (∃ i, ofParts m os = .ok i) ↔
    ∀ k o kind, os[k]? = some o → m.layout.kind? k = some kind → o.Admitted kind := by
  rw [← fault?_eq_none_iff, fault?_ofParts h, firstFault?_eq_none_iff]
  simp only [Nat.zero_add, objection?_eq_none_iff]
  exact ⟨fun h k o kind ho => h k o ho kind, fun h k o ho kind => h k o kind ho⟩

theorem ofParts_eq_error_iff (h : os.length = m.arity) {e : AssemblyError} :
    ofParts m os = .error e ↔ ∃ k o kind, IsLeast {k | Misplaced m os k} k ∧ os[k]? = some o ∧
      m.layout.kind? k = some kind ∧ e = rejection m k kind o := by
  rw [← fault?_eq_some_iff, fault?_ofParts h, firstFault?_eq_some_iff]
  simp only [Nat.zero_add, objection?_eq_some_iff, objection?_eq_none_iff]
  constructor
  · rintro ⟨k, o, ho, ⟨kind, hkind, hnot, rfl⟩, hbefore⟩
    refine ⟨k, o, kind, ⟨⟨o, kind, ho, hkind, hnot⟩, ?_⟩, ho, hkind, rfl⟩
    rintro j ⟨o', kind', ho', hkind', hnot'⟩
    by_contra hj
    exact hnot' (hbefore j (by omega) o' ho' kind' hkind')
  · rintro ⟨k, o, kind, ⟨⟨o', kind', ho', hkind', hnot⟩, hleast⟩, ho, hkind, rfl⟩
    obtain rfl : o' = o := by simpa [ho, eq_comm] using ho'
    obtain rfl : kind' = kind := by simpa [hkind, eq_comm] using hkind'
    refine ⟨k, o', ho, ⟨kind', hkind, hnot, rfl⟩, fun j hj o ho' kind hkind' => ?_⟩
    by_contra hnot'
    exact absurd (hleast ⟨o, kind, ho', hkind', hnot'⟩) (by omega)

/-- **The typed and the untyped view are inverse to each other.**  Every instruction is made of its
own parts; whatever else is put together is refused, and the message is about the first operand that
does not do. -/
theorem ofParts_exact :
    (∀ i : Instruction, ofParts i.mnemonic i.operands = .ok i) ∧ ∀ m os, Composes m os := by
  refine ⟨ofParts_operands, fun m os => ⟨fun i => ofParts_eq_ok_iff, ?_, fun e => ?_⟩⟩
  all_goals by_cases h : os.length = m.arity
  · simpa [h] using exists_ofParts_iff h
  · simp [h, ofParts_of_length_ne h]
  · simpa [h] using ofParts_eq_error_iff h
  · simp [h, ofParts_of_length_ne h, eq_comm]

/-- Of a page that is no byte and a register without its mark the first one is told. -/
example : ofParts .condj [.int 256, .int 3, .op (.symbol ">"), .reg 4, .label "LOOP"] =
    .error (.fieldOverflow .condj 0 256 3) := by decide

end Instruction
end PulseProcessor
