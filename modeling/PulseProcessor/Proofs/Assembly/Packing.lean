import PulseProcessor.Assembly.Program
import PulseProcessor.Isa.Decoded
import PulseProcessor.Proofs.Isa.Field

/-! # Packing and unpacking words

`Program.pack` puts operand patterns into the fields of a layout, `Isa.decode?` takes them out
again.  The table is laid out so that nothing gets lost on the way: fields lie below the opcode
byte, two of them overlap only if they are the same, and none overlaps the marker
(`Layout.Separated`).  So an accepted instruction decodes to its own mnemonic, and each operand is
found as the pattern that was written (`decode?_encodeInstruction`).
-/

namespace PulseProcessor

open Isa

/-! ### Computations that succeed -/

/-- The steps of a computation that succeeds do so one after the other. -/
theorem bind_eq_ok_iff {ε α β : Type} {x : Except ε α} {f : α → Except ε β} {b : β} :
    x >>= f = .ok b ↔ ∃ a, x = .ok a ∧ f a = .ok b := by
  cases x <;> simp [bind, Except.bind]

theorem map_eq_ok_iff {ε α β : Type} {x : Except ε α} {f : α → β} {b : β} :
    x.map f = .ok b ↔ ∃ a, x = .ok a ∧ f a = b := by
  cases x <;> simp [Except.map]

/-- What succeeds has no error to be renamed. -/
theorem mapError_eq_ok_iff {ε ε' α : Type} {x : Except ε α} {f : ε → ε'} {a : α} :
    x.mapError f = .ok a ↔ x = .ok a := by
  constructor
  · intro h
    cases x with
    | error e => cases h
    | ok b =>
      cases h
      rfl
  · rintro rfl
    rfl

/-- What answers with something has succeeded. -/
theorem exists_ok {ε α : Type} {x : Except ε α} {P : α → Prop} (h : ∃ a ∈ x.toOption, P a) :
    ∃ a, x = .ok a ∧ P a := by
  obtain ⟨a, ha, hP⟩ := h
  cases x with
  | error e => contradiction
  | ok a' =>
    cases ha
    exact ⟨a, rfl, hP⟩

/-! ### Layouts -/

namespace Isa

/-- **Nothing in the words of a layout overlaps.** -/
structure Layout.Separated (l : Layout) : Prop where
  inside : ∀ f ∈ l.fields, f.offset + f.width ≤ 56
  disjoint : ∀ f ∈ l.fields, ∀ g ∈ l.fields, g = f ∨ g.mask &&& f.mask = 0
  marker : ∀ f ∈ l.fields, f.extract ((l.opcode.toUInt64 <<< 56) ||| l.marker) = 0
  opcode : opcodeOf ((l.opcode.toUInt64 <<< 56) ||| l.marker) = l.opcode
  kind : ∀ f ∈ l.fields, l.kind? f.operand = some f.kind

theorem Mnemonic.separated (m : Mnemonic) : m.layout.Separated := by
  cases m <;> exact ⟨by decide, by decide, by decide, by decide, by decide⟩

theorem opcodeOf_or (a b : Word) : opcodeOf (a ||| b) = opcodeOf a ||| opcodeOf b := by
  simp only [opcodeOf, UInt64.shiftRight_or, UInt64.toUInt8_or]

end Isa

namespace Program

/-- The patterns fit the fields that they are put into. -/
def PatternsFit (l : Layout) (raws : List Word) : Prop :=
  ∀ f ∈ l.fields, (raws.getD f.operand 0).toNat < 1 <<< f.width

/-! ### One field after another -/

section
variable {raws : List Word} {f : Field}

theorem extract_foldl (fs : List Field) (w : Word) (hf : f.offset + f.width ≤ 56)
    (hraw : (raws.getD f.operand 0).toNat < 1 <<< f.width)
    (hfs : ∀ g ∈ fs, g = f ∨ g.mask &&& f.mask = 0) :
    f.extract (fs.foldl (fun w g => w ||| g.place (raws.getD g.operand 0)) w) =
      f.extract w ||| if f ∈ fs then raws.getD f.operand 0 else 0 := by
  induction fs generalizing w with
  | nil => simp
  | cons g fs ih =>
    rw [List.foldl_cons, ih _ fun g' hg' => hfs g' (List.mem_cons_of_mem _ hg'),
      Field.extract_or]
    rcases hfs g (List.mem_cons_self ..) with rfl | hdis
    · -- A field that occurs again gets the same pattern again, and keeps it.
      rw [Field.extract_place hf hraw]
      split <;> simp [UInt64.or_assoc]
    · rw [Field.extract_place_of_disjoint hdis]
      by_cases hfg : f = g
      · -- Only an empty field is disjoint from itself; its pattern is zero.
        subst hfg
        have hzero : raws.getD f.operand 0 = 0 := by
          rw [← Field.extract_place hf hraw]
          exact Field.extract_place_of_disjoint hdis _
        simp only [List.mem_cons_self, if_true, hzero]
        split <;> simp
      · simp [hfg]

theorem opcodeOf_foldl (fs : List Field) (w : Word)
    (hfs : ∀ g ∈ fs, g.offset + g.width ≤ 56 ∧ (raws.getD g.operand 0).toNat < 1 <<< g.width) :
    opcodeOf (fs.foldl (fun w g => w ||| g.place (raws.getD g.operand 0)) w) = opcodeOf w := by
  induction fs generalizing w with
  | nil => rfl
  | cons g fs ih =>
    obtain ⟨hg, hraw⟩ := hfs g (List.mem_cons_self ..)
    rw [List.foldl_cons, ih _ fun g' hg' => hfs g' (List.mem_cons_of_mem _ hg'), opcodeOf_or]
    simp only [opcodeOf, Field.place_shiftRight hg hraw]
    simp

theorem operand_foldl (fs : List Field) (w raw : Word) (i : Nat)
    (hfs : ∀ g ∈ fs, g.extract w = raws.getD g.operand 0) :
    fs.foldl (fun raw g => if g.operand = i then g.extract w else raw) raw =
      if ∃ g ∈ fs, g.operand = i then raws.getD i 0 else raw := by
  induction fs generalizing raw with
  | nil => simp
  | cons g fs ih =>
    rw [List.foldl_cons, ih _ fun g' hg' => hfs g' (List.mem_cons_of_mem _ hg')]
    by_cases hex : ∃ g ∈ fs, g.operand = i
    · simp [hex]
    · by_cases hg : g.operand = i
      · simp [hg, hfs g (List.mem_cons_self ..)]
      · simp [hex, hg]

end

/-! ### Packed words -/

variable {m : Mnemonic} {raws : List Word}

theorem extract_pack (h : PatternsFit m.layout raws) {f : Field} (hf : f ∈ m.layout.fields) :
    f.extract (pack m.layout raws) = raws.getD f.operand 0 := by
  have hsep := m.separated
  rw [pack, extract_foldl _ _ (hsep.inside f hf) (h f hf) (hsep.disjoint f hf),
    hsep.marker f hf, if_pos hf]
  simp

theorem decode?_pack (h : PatternsFit m.layout raws) :
    decode? (pack m.layout raws) = some ⟨m, pack m.layout raws⟩ := by
  have hop : opcodeOf (pack m.layout raws) = m.opcode := by
    rw [pack, opcodeOf_foldl _ _ fun g hg => ⟨m.separated.inside g hg, h g hg⟩]
    exact m.separated.opcode
  rw [decode?, hop, Mnemonic.ofOpcode?_opcode]
  rfl

theorem operand_pack (h : PatternsFit m.layout raws) {i : Nat} (hi : (m.layout.kind? i).isSome) :
    Decoded.operand ⟨m, pack m.layout raws⟩ i = raws.getD i 0 := by
  rw [Decoded.operand, operand_foldl _ _ _ _ fun g hg => extract_pack h hg]
  rw [Layout.kind?, Option.isSome_map, List.find?_isSome] at hi
  obtain ⟨f, hf, hfi⟩ := hi
  rw [if_pos ⟨f, hf, by simpa using hfi⟩]

/-! ### Accepted instructions -/

variable {p : Program} {pc : Nat} {w : Word} {i : Instruction}

theorem operandPattern_eq_ok_iff {k : Nat} {o : Operand} {raw : Word} :
    p.operandPattern pc m k o = .ok raw ↔
      ∃ v kind, p.operandValue pc m o = .ok v ∧ m.layout.kind? k = some kind ∧
        kind.pattern? v = some raw := by
  unfold operandPattern
  cases p.operandValue pc m o with
  | error e => simp [bind, Except.bind]
  | ok v =>
    cases hk : m.layout.kind? k with
    | none => simp [bind, Except.bind, throw, throwThe, MonadExceptOf.throw]
    | some kind =>
      cases hv : kind.pattern? v <;>
        simp [bind, Except.bind, throw, throwThe, MonadExceptOf.throw, pure, Except.pure, hv]

theorem operandPatterns_cons_eq_ok_iff {k : Nat} {o : Operand} {os : List Operand} :
    p.operandPatterns pc m k (o :: os) = .ok raws ↔
      ∃ raw rest, p.operandPattern pc m k o = .ok raw ∧
        p.operandPatterns pc m (k + 1) os = .ok rest ∧ raws = raw :: rest := by
  simp only [operandPatterns, bind_eq_ok_iff, pure, Except.pure, Except.ok.injEq]
  constructor
  · rintro ⟨raw, hraw, rest, hrest, rfl⟩
    exact ⟨raw, rest, hraw, hrest, rfl⟩
  · rintro ⟨raw, rest, hraw, hrest, rfl⟩
    exact ⟨raw, hraw, rest, hrest, rfl⟩

/-- Each operand has its pattern at its own place. -/
theorem operandPatterns_eq_ok {k : Nat} {os : List Operand}
    (h : p.operandPatterns pc m k os = .ok raws) :
    raws.length = os.length ∧
      ∀ j o, os[j]? = some o → p.operandPattern pc m (k + j) o = .ok (raws.getD j 0) := by
  induction os generalizing k raws with
  | nil =>
    simp only [operandPatterns, Except.ok.injEq] at h
    simp [← h]
  | cons o os ih =>
    obtain ⟨raw, rest, hraw, hrest, rfl⟩ := operandPatterns_cons_eq_ok_iff.1 h
    obtain ⟨hlen, hget⟩ := ih hrest
    refine ⟨by simp [hlen], fun j o' hj => ?_⟩
    cases j with
    | zero =>
      obtain rfl : o = o' := by simpa using hj
      simpa using hraw
    | succ j =>
      rw [List.getD_cons_succ, ← Nat.add_assoc, Nat.add_right_comm]
      exact hget j o' (by simpa using hj)

theorem patternsFit_of_operandPatterns {os : List Operand}
    (h : p.operandPatterns pc m 0 os = .ok raws) : PatternsFit m.layout raws := by
  intro f hf
  obtain ⟨hlen, hget⟩ := operandPatterns_eq_ok h
  by_cases hk : f.operand < os.length
  · obtain ⟨v, kind, -, hkind, hv⟩ :=
      operandPattern_eq_ok_iff.1 (hget f.operand _ (List.getElem?_eq_getElem hk))
    rw [Nat.zero_add, m.separated.kind f hf, Option.some.injEq] at hkind
    subst hkind
    exact FieldKind.toNat_pattern?_lt hv
  · -- A field without an operand is filled with zero.
    rw [List.getD_eq_getElem?_getD, List.getElem?_eq_none (by omega)]
    exact one_shiftLeft_pos f.width

theorem encodeInstruction_eq_ok_iff : p.encodeInstruction pc i = .ok w ↔
    ∃ raws, p.operandPatterns pc i.mnemonic 0 i.operands = .ok raws ∧
      pack i.mnemonic.layout raws = w := by
  unfold encodeInstruction
  cases p.operandPatterns pc i.mnemonic 0 i.operands <;> simp [Except.map]

/-- **An accepted instruction decodes to its own mnemonic.** -/
theorem decode?_encodeInstruction (h : p.encodeInstruction pc i = .ok w) :
    decode? w = some ⟨i.mnemonic, w⟩ := by
  obtain ⟨raws, hraws, rfl⟩ := encodeInstruction_eq_ok_iff.1 h
  exact decode?_pack (patternsFit_of_operandPatterns hraws)

/-- **Decoding finds each operand as the pattern that was written.** -/
theorem operandPattern_decoded (h : p.encodeInstruction pc i = .ok w) {k : Nat} {o : Operand}
    (ho : i.operands[k]? = some o) :
    p.operandPattern pc i.mnemonic k o = .ok (Decoded.operand ⟨i.mnemonic, w⟩ k) := by
  obtain ⟨raws, hraws, rfl⟩ := encodeInstruction_eq_ok_iff.1 h
  have hpattern := (operandPatterns_eq_ok hraws).2 k o ho
  rw [Nat.zero_add] at hpattern
  obtain ⟨v, kind, -, hkind, -⟩ := operandPattern_eq_ok_iff.1 hpattern
  rw [operand_pack (patternsFit_of_operandPatterns hraws) (by rw [hkind]; rfl), hpattern]

/-! ### Operands that fit -/

theorem exists_operandPattern {k : Nat} {o : Operand} {v : Int} {kind : FieldKind}
    (hv : p.operandValue pc m o = .ok v) (hkind : m.layout.kind? k = some kind)
    (hfits : kind.Fits v) : ∃ raw, p.operandPattern pc m k o = .ok raw :=
  ⟨_, operandPattern_eq_ok_iff.2 ⟨v, kind, hv, hkind, if_pos hfits⟩⟩

theorem exists_operandPatterns {k : Nat} {os : List Operand}
    (h : ∀ j o, os[j]? = some o → ∃ raw, p.operandPattern pc m (k + j) o = .ok raw) :
    ∃ raws, p.operandPatterns pc m k os = .ok raws := by
  induction os generalizing k with
  | nil => exact ⟨[], rfl⟩
  | cons o os ih =>
    obtain ⟨raw, hraw⟩ := h 0 o rfl
    obtain ⟨raws, hraws⟩ := ih (k := k + 1) fun j o' ho' => by
      rw [Nat.add_assoc, Nat.add_comm 1 j]
      exact h (j + 1) o' ho'
    exact ⟨raw :: raws, operandPatterns_cons_eq_ok_iff.2 ⟨raw, raws, hraw, hraws, rfl⟩⟩

/-- **An instruction has a word if the values of its operands fit.** -/
theorem exists_word_of_fits
    (h : ∀ k o, i.operands[k]? = some o → ∃ v kind, p.operandValue pc i.mnemonic o = .ok v ∧
      i.mnemonic.layout.kind? k = some kind ∧ kind.Fits v) :
    ∃ w, p.encodeInstruction pc i = .ok w := by
  obtain ⟨raws, hraws⟩ := exists_operandPatterns (k := 0) fun j o ho => by
    obtain ⟨v, kind, hv, hkind, hfits⟩ := h j o ho
    exact exists_operandPattern hv (by rwa [Nat.zero_add]) hfits
  exact ⟨_, encodeInstruction_eq_ok_iff.2 ⟨raws, hraws, rfl⟩⟩

/-! ### What the patterns stand for -/

section
variable {k : Nat}

/-- A number that is its own value is found as it was written. -/
theorem toNat_operand_number (h : p.encodeInstruction pc i = .ok w) {o : Operand} {n : UInt8}
    (ho : i.operands[k]? = some o) (hn : o = Instruction.small n ∨ o = .reg n)
    {kind : FieldKind} (hk : i.mnemonic.layout.kind? k = some kind) :
    (Decoded.operand ⟨i.mnemonic, w⟩ k).toNat = n.toNat ∧ n.toNat < 1 <<< kind.width := by
  obtain ⟨v, kind', hv, hkind, hpat⟩ := operandPattern_eq_ok_iff.1 (operandPattern_decoded h ho)
  obtain rfl : v = n.toNat := by
    rcases hn with rfl | rfl <;> simpa [operandValue, Instruction.small, eq_comm] using hv
  obtain rfl : kind = kind' := by rw [hk] at hkind; simpa using hkind
  have hnat := FieldKind.toNat_pattern?_of_nonneg hpat (by omega)
  have hfits := (FieldKind.pattern?_eq_some_iff.1 hpat).1.2
  omega

theorem toNat_operand_page (h : p.encodeInstruction pc i = .ok w) {n : UInt8}
    (ho : i.operands[k]? = some (Instruction.small n))
    (hk : i.mnemonic.layout.kind? k = some .page) :
    (Decoded.operand ⟨i.mnemonic, w⟩ k).toNat = n.toNat ∧ n.toNat < 8 :=
  toNat_operand_number h ho (.inl rfl) hk

theorem toNat_operand_channel (h : p.encodeInstruction pc i = .ok w) {n : UInt8}
    (ho : i.operands[k]? = some (Instruction.small n))
    (hk : i.mnemonic.layout.kind? k = some .channel) :
    (Decoded.operand ⟨i.mnemonic, w⟩ k).toNat = n.toNat ∧ n.toNat < 8 :=
  toNat_operand_number h ho (.inl rfl) hk

theorem toNat_operand_reg (h : p.encodeInstruction pc i = .ok w) {n : UInt8}
    (ho : i.operands[k]? = some (.reg n)) (hk : i.mnemonic.layout.kind? k = some .register) :
    (Decoded.operand ⟨i.mnemonic, w⟩ k).toNat = n.toNat ∧ n.toNat < 32 :=
  toNat_operand_number h ho (.inr rfl) hk

/-- An operator is found by its code. -/
theorem toNat_operand_op (h : p.encodeInstruction pc i = .ok w) {o : OperatorRef}
    (ho : i.operands[k]? = some (.op o)) :
    ∃ op, o.resolve = .ok op ∧ (Decoded.operand ⟨i.mnemonic, w⟩ k).toNat = op.code := by
  obtain ⟨v, kind, hv, -, hpat⟩ := operandPattern_eq_ok_iff.1 (operandPattern_decoded h ho)
  obtain ⟨op, hop, rfl⟩ := map_eq_ok_iff.1 hv
  have hnat := FieldKind.toNat_pattern?_of_nonneg hpat (by omega)
  exact ⟨op, hop, by omega⟩

/-- A jump target is found as the place that its label marks. -/
theorem toNat_operand_label (h : p.encodeInstruction pc i = .ok w) {name : String}
    (ho : i.operands[k]? = some (.label name)) :
    p.labelPc? name = some (Decoded.operand ⟨i.mnemonic, w⟩ k).toNat := by
  obtain ⟨v, kind, hv, -, hpat⟩ := operandPattern_eq_ok_iff.1 (operandPattern_decoded h ho)
  rw [operandValue] at hv
  cases hpc : p.labelPc? name with
  | none => simp [hpc] at hv
  | some target =>
    obtain rfl : (target : Int) = v := by simpa [hpc] using hv
    have hnat := FieldKind.toNat_pattern?_of_nonneg hpat (by omega)
    rw [Option.some.injEq]
    omega

/-- The pattern of an immediate. -/
theorem pattern?_operand_int (h : p.encodeInstruction pc i = .ok w) {v : Int}
    (ho : i.operands[k]? = some (.int v)) (hk : i.mnemonic.layout.kind? k = some .immediate) :
    FieldKind.immediate.pattern? v = some (Decoded.operand ⟨i.mnemonic, w⟩ k) := by
  obtain ⟨v', kind, hv, hkind, hpat⟩ := operandPattern_eq_ok_iff.1 (operandPattern_decoded h ho)
  obtain rfl : v = v' := by simpa [operandValue] using hv
  obtain rfl : FieldKind.immediate = kind := by rw [hk] at hkind; simpa using hkind
  exact hpat

end

end Program
end PulseProcessor
