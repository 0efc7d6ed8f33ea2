import PulseProcessor.Proofs.Assembly.Packing

/-! # What a word says

A word says of an instruction its mnemonic and one number for each operand, the one that the
operand denotes (`Program.Denotes`), and nothing besides: every bit that is set belongs to the
opcode, to the marker or to a field.  So two instructions share a word exactly if they differ in
spelling only (`Instruction.Alike`): in operators of one code, in labels of one place, in
immediates that agree in their low 31 bits.
-/

namespace PulseProcessor

open Isa

/-! ### Bits of a packed word -/

namespace Isa

/-- A pattern sets bits of its own field only. -/
theorem Field.mem_of_testBit_place {f : Field} (h : f.offset + f.width ≤ 56) {raw : Word} {b : Nat}
    (hb : (f.place raw).toNat.testBit b = true) : f.offset ≤ b ∧ b < f.offset + f.width := by
  rw [place, UInt64.toNat_and, Nat.testBit_and, testBit_mask h] at hb
  simp only [Bool.and_eq_true, decide_eq_true_eq] at hb
  exact hb.2

/-- Bit `b` belongs to the instruction's opcode, to its marker or to one of its fields. -/
inductive Layout.Owns (l : Layout) (b : Nat) : Prop
  | opcode (above : 56 ≤ b) (isSet : l.opcode.toNat.testBit (b - 56) = true)
  | marker (isSet : l.marker.toNat.testBit b = true)
  | field (f : Field) (mem : f ∈ l.fields) (lower : f.offset ≤ b) (upper : b < f.offset + f.width)

end Isa

namespace Program

theorem testBit_foldl_place {raws : List Word} {fs : List Field} {w : Word} {b : Nat}
    (hb : (fs.foldl (fun w f => w ||| f.place (raws.getD f.operand 0)) w).toNat.testBit b = true) :
    w.toNat.testBit b = true ∨
      ∃ f ∈ fs, (f.place (raws.getD f.operand 0)).toNat.testBit b = true := by
  induction fs generalizing w with
  | nil => exact .inl hb
  | cons f fs ih =>
    rw [List.foldl_cons] at hb
    rcases ih hb with hw | ⟨g, hg, hgb⟩
    · rw [UInt64.toNat_or, Nat.testBit_or, Bool.or_eq_true] at hw
      exact hw.imp_right fun hf => ⟨f, List.mem_cons_self .., hf⟩
    · exact .inr ⟨g, List.mem_cons_of_mem _ hg, hgb⟩

theorem owns_of_testBit_pack {m : Mnemonic} {raws : List Word} {b : Nat}
    (hb : (pack m.layout raws).toNat.testBit b = true) : m.layout.Owns b := by
  rcases testBit_foldl_place hb with hbase | ⟨f, hf, hplace⟩
  · rw [UInt64.toNat_or, Nat.testBit_or, Bool.or_eq_true] at hbase
    rcases hbase with hop | hmarker
    · rw [UInt64.toNat_shiftLeft, Nat.testBit_mod_two_pow, Nat.testBit_shiftLeft] at hop
      simp only [Bool.and_eq_true, decide_eq_true_eq] at hop
      exact .opcode hop.2.1 hop.2.2
    · exact .marker hmarker
  · obtain ⟨hlower, hupper⟩ := Field.mem_of_testBit_place (m.separated.inside f hf) hplace
    exact .field f hf hlower hupper

end Program

/-! ### Operands and the numbers they denote -/

/-- The number that an operand denotes in a field of its kind, labels being those of `p`. Of an
immediate, the low 31 bits. -/
inductive Program.Denotes (p : Program) : FieldKind → Operand → Nat → Prop
  | page {v : Int} {n : Nat} (number : (n : Int) = v) : p.Denotes .page (.int v) n
  | channel {v : Int} {n : Nat} (number : (n : Int) = v) : p.Denotes .channel (.int v) n
  | register {r : UInt8} {n : Nat} (number : n = r.toNat) : p.Denotes .register (.reg r) n
  | operator {o : OperatorRef} {op : Operator} {n : Nat} (known : o.resolve = .ok op)
      (code : n = op.code) : p.Denotes .operator (.op o) n
  | immediate {v : Int} {n : Nat} (low : (n : Int) = v % (1 <<< 31 : Nat)) :
      p.Denotes .immediate (.int v) n
  | target {name : String} {n : Nat} (place : p.labelPc? name = some n) :
      p.Denotes .target (.label name) n

/-- Two spellings of one operand: equal pages, channels and registers, operators of one code,
immediates congruent modulo `2 ^ 31`, labels of one place. -/
inductive Operand.Alike (p : Program) : FieldKind → Operand → Operand → Prop
  | page (v : Int) : Alike p .page (.int v) (.int v)
  | channel (v : Int) : Alike p .channel (.int v) (.int v)
  | register (r : UInt8) : Alike p .register (.reg r) (.reg r)
  | operator {o o' : OperatorRef} {op op' : Operator} (left : o.resolve = .ok op)
      (right : o'.resolve = .ok op') (code : op.code = op'.code) :
      Alike p .operator (.op o) (.op o')
  | immediate {v v' : Int} (low : v % (1 <<< 31 : Nat) = v' % (1 <<< 31 : Nat)) :
      Alike p .immediate (.int v) (.int v')
  | target {name name' : String} (place : p.labelPc? name = p.labelPc? name') :
      Alike p .target (.label name) (.label name')

/-- Instructions of one mnemonic, operand by operand two spellings of the same. -/
structure Instruction.Alike (p : Program) (i j : Instruction) : Prop where
  mnemonic : i.mnemonic = j.mnemonic
  operands : ∀ k o o' kind, i.operands[k]? = some o → j.operands[k]? = some o' →
    i.mnemonic.layout.kind? k = some kind → o.Alike p kind o'

/-- An operand is written in the form that its kind asks for. -/
def Operand.suits : FieldKind → Operand → Bool
  | .page, .int _ | .channel, .int _ | .immediate, .int _ => true
  | .register, .reg _ | .operator, .op _ | .target, .label _ => true
  | _, _ => false

namespace Instruction

variable {i : Instruction} {k : Nat} {o : Operand} {kind : FieldKind}

theorem length_operands (i : Instruction) : i.operands.length = i.mnemonic.arity := by
  cases i <;> rfl

theorem all_suits (i : Instruction) : i.operands.zipIdx.all (fun ok =>
    (i.mnemonic.layout.kind? ok.2).all (ok.1.suits ·)) = true := by
  cases i <;> rfl

theorem suits (ho : i.operands[k]? = some o) (hk : i.mnemonic.layout.kind? k = some kind) :
    o.suits kind = true := by
  have hmem : (o, k) ∈ i.operands.zipIdx := by
    rw [List.mem_zipIdx_iff_getElem?]
    exact ho
  simpa [hk] using List.all_eq_true.1 i.all_suits _ hmem

end Instruction

namespace Program

variable {p : Program} {pc : Nat} {w : Word} {i : Instruction}
variable {kind : FieldKind} {o o' : Operand} {n n' : Nat}

/-- Operands that denote one number are alike. -/
theorem Denotes.alike (h : p.Denotes kind o n) (h' : p.Denotes kind o' n) : o.Alike p kind o' := by
  cases h with
  | page number =>
    cases h' with
    | page number' => obtain rfl := number.symm.trans number'; exact .page _
  | channel number =>
    cases h' with
    | channel number' => obtain rfl := number.symm.trans number'; exact .channel _
  | register number =>
    cases h' with
    | register number' =>
      obtain rfl := UInt8.toNat_inj.1 (number.symm.trans number')
      exact .register _
  | operator known code =>
    cases h' with
    | operator known' code' => exact .operator known known' (code.symm.trans code')
  | immediate low =>
    cases h' with
    | immediate low' => exact .immediate (low.symm.trans low')
  | target place =>
    cases h' with
    | target place' => exact .target (place.trans place'.symm)

/-- Operands that are alike denote one number. -/
theorem Denotes.eq_of_alike (h : p.Denotes kind o n) (h' : p.Denotes kind o' n')
    (hoo : o.Alike p kind o') : n = n' := by
  cases hoo with
  | page | channel | register => cases h; cases h'; omega
  | immediate low => cases h; cases h'; omega
  | operator left right code =>
    cases h with | operator known hn =>
    cases h' with | operator known' hn' =>
    rw [left, Except.ok.injEq] at known
    rw [right, Except.ok.injEq] at known'
    rw [hn, hn', ← known, ← known', code]
  | target place =>
    cases h with | target left =>
    cases h' with | target right =>
    rwa [left, right, Option.some.injEq] at place

/-- The pattern of an operand is the number that it denotes. -/
theorem denotes_of_operandPattern {k : Nat} {raw : Word} (ho : i.operands[k]? = some o)
    (h : p.operandPattern pc i.mnemonic k o = .ok raw) :
    ∃ kind, i.mnemonic.layout.kind? k = some kind ∧ p.Denotes kind o raw.toNat := by
  obtain ⟨v, kind, hv, hkind, hpat⟩ := operandPattern_eq_ok_iff.1 h
  refine ⟨kind, hkind, ?_⟩
  have hsuits := Instruction.suits ho hkind
  -- All kinds but immediates hold numbers that are not negative, and hold them as they are.
  have hself : kind ≠ .immediate → (raw.toNat : Int) = v := fun hne =>
    FieldKind.toNat_pattern?_of_nonneg hpat (by
      have hleast := (FieldKind.pattern?_eq_some_iff.1 hpat).1.1
      cases kind <;> first | exact hleast | exact absurd rfl hne)
  cases o with
  | int v' =>
    obtain rfl : v' = v := by simpa [operandValue] using hv
    cases kind with
    | page => exact .page (hself (by decide))
    | channel => exact .channel (hself (by decide))
    | immediate => exact .immediate (FieldKind.toNat_pattern? hpat)
    | _ => simp [Operand.suits] at hsuits
  | reg r =>
    obtain rfl : (r.toNat : Int) = v := by simpa [operandValue] using hv
    cases kind with
    | register => exact .register (by have := hself (by decide); omega)
    | _ => simp [Operand.suits] at hsuits
  | op op =>
    obtain ⟨op, hop, rfl⟩ := map_eq_ok_iff.1 hv
    cases kind with
    | operator => exact .operator hop (by have := hself (by decide); omega)
    | _ => simp [Operand.suits] at hsuits
  | label name =>
    cases hpc : p.labelPc? name with
    | none => simp [operandValue, hpc] at hv
    | some target =>
      obtain rfl : (target : Int) = v := by simpa [operandValue, hpc] using hv
      cases kind with
      | target =>
        refine .target ?_
        have := hself (by decide)
        rw [hpc, Option.some.injEq]
        omega
      | _ => simp [Operand.suits] at hsuits

/-! ### Words of instructions -/

/-- The patterns of an instruction, one for each operand, and the word they make. -/
theorem exists_patterns (h : p.encodeInstruction pc i = .ok w) :
    ∃ raws, w = pack i.mnemonic.layout raws ∧ raws.length = i.mnemonic.arity ∧
      ∀ k o, i.operands[k]? = some o → ∃ kind, i.mnemonic.layout.kind? k = some kind ∧
        p.Denotes kind o (raws.getD k 0).toNat := by
  obtain ⟨raws, hraws, rfl⟩ := encodeInstruction_eq_ok_iff.1 h
  obtain ⟨hlen, hget⟩ := operandPatterns_eq_ok hraws
  refine ⟨raws, rfl, hlen.trans i.length_operands, fun k o ho => ?_⟩
  exact denotes_of_operandPattern ho (by simpa using hget k o ho)

/-- **A word is exactly what the processor sees of its instruction.** -/
structure Exact (p : Program) (i : Instruction) (w : Word) : Prop where
  /-- The word decodes to the instruction's mnemonic and to the numbers of its operands. -/
  decoded : ∃ d, decode? w = some d ∧ d.mnemonic = i.mnemonic ∧
    d.operands.length = i.operands.length ∧
    ∀ k o, i.operands[k]? = some o → ∃ kind raw, i.mnemonic.layout.kind? k = some kind ∧
      d.operands[k]? = some raw ∧ p.Denotes kind o raw.toNat
  /-- It has no other bits. -/
  owned : ∀ b, w.toNat.testBit b = true → i.mnemonic.layout.Owns b
  /-- It is the word of those instructions that are alike, and of no others. -/
  shared : ∀ pc j w', p.encodeInstruction pc j = .ok w' → (w = w' ↔ i.Alike p j)

/-- The operands that a decoded instruction shows. -/
theorem decoded_operands (h : p.encodeInstruction pc i = .ok w) {k : Nat}
    (ho : i.operands[k]? = some o) :
    ∃ kind raw, i.mnemonic.layout.kind? k = some kind ∧
      (Decoded.operands ⟨i.mnemonic, w⟩)[k]? = some raw ∧ p.Denotes kind o raw.toNat := by
  obtain ⟨kind, hkind, hden⟩ := denotes_of_operandPattern ho (operandPattern_decoded h ho)
  have hk : k < i.mnemonic.arity := by
    rw [← i.length_operands]
    exact (List.getElem?_eq_some_iff.1 ho).1
  exact ⟨kind, _, hkind, by simp [Decoded.operands, hk], hden⟩

/-- Instructions with the same word are alike. -/
theorem alike_of_word {pc' : Nat} {j : Instruction} (h : p.encodeInstruction pc i = .ok w)
    (h' : p.encodeInstruction pc' j = .ok w) : i.Alike p j := by
  have hm : i.mnemonic = j.mnemonic := by
    have := (decode?_encodeInstruction h).symm.trans (decode?_encodeInstruction h')
    simpa using this
  refine ⟨hm, fun k o o' kind ho ho' hk => ?_⟩
  obtain ⟨kindl, rawl, hkl, hrawl, hl⟩ := decoded_operands h ho
  obtain ⟨kindr, rawr, hkr, hrawr, hr⟩ := decoded_operands h' ho'
  obtain rfl : kindl = kind := by simpa [hkl] using hk
  obtain rfl : kindr = kindl := by simpa [← hm, hkl, eq_comm] using hkr
  obtain rfl : rawl = rawr := by simpa [hm, hrawr, eq_comm] using hrawl
  exact hl.alike hr

/-- Instructions that are alike have the same word. -/
theorem word_of_alike {pc' : Nat} {j : Instruction} {w' : Word}
    (h : p.encodeInstruction pc i = .ok w) (h' : p.encodeInstruction pc' j = .ok w')
    (hij : i.Alike p j) : w = w' := by
  obtain ⟨raws, rfl, hlen, hden⟩ := exists_patterns h
  obtain ⟨raws', rfl, hlen', hden'⟩ := exists_patterns h'
  have hraws : raws = raws' := by
    apply List.ext_getElem (by rw [hlen, hlen', hij.mnemonic])
    intro k hk hk'
    have ho : i.operands[k]? = some _ :=
      List.getElem?_eq_getElem (by rwa [i.length_operands, ← hlen])
    have ho' : j.operands[k]? = some _ :=
      List.getElem?_eq_getElem (by rwa [j.length_operands, ← hlen'])
    obtain ⟨kind, hkind, hl⟩ := hden k _ ho
    obtain ⟨kind', hkind', hr⟩ := hden' k _ ho'
    obtain rfl : kind = kind' := by simpa [← hij.mnemonic, hkind] using hkind'
    have heq := hl.eq_of_alike hr (hij.operands k _ _ kind ho ho' hkind)
    simpa [List.getD_eq_getElem?_getD, hk, hk', UInt64.toNat_inj] using heq
  rw [hraws, hij.mnemonic]

/-- **Encoding is exact**, for every table of labels and every instruction that is accepted. -/
theorem encodeInstruction_exact (h : p.encodeInstruction pc i = .ok w) : p.Exact i w where
  decoded := ⟨_, decode?_encodeInstruction h, rfl,
    by rw [i.length_operands]; simp [Decoded.operands], fun _ _ ho => decoded_operands h ho⟩
  owned b hb := by
    obtain ⟨raws, rfl, -, -⟩ := exists_patterns h
    exact owns_of_testBit_pack hb
  shared pc' j w' h' := ⟨fun hw => alike_of_word h (hw ▸ h'), word_of_alike h h'⟩

/-- A counted jump writes its register into two fields and carries the marker besides. -/
theorem encodeInstruction_exact_loopnz :
    let p : Program := { labels := #[("LOOP", 3)] }
    p.encodeInstruction 7 (.loopnz 5 31 "LOOP") = .ok 0x30a23ff000000003 ∧
      p.Exact (.loopnz 5 31 "LOOP") 0x30a23ff000000003 := by
  have h : Program.encodeInstruction { labels := #[("LOOP", 3)] } 7 (.loopnz 5 31 "LOOP") =
      .ok 0x30a23ff000000003 := by rfl
  exact ⟨h, encodeInstruction_exact h⟩

end Program
end PulseProcessor
