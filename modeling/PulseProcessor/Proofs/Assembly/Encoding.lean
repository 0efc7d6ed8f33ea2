import PulseProcessor.Proofs.Assembly.Fault
import PulseProcessor.Proofs.Assembly.Packing

/-! # Encoding a program word by word

`Program.encode` answers with one word for each statement, at the statement's own place.  Of the
program around it an instruction sees only the labels: where they agree on its target, it has the
same word (`encodeInstruction_congr`).
-/

namespace PulseProcessor
namespace Program

variable {p q : Program} {pc : Nat} {w : Word} {i : Instruction} {ws : List Word}

/-! ### An instruction and its surroundings -/

theorem operandValue_congr {pc' : Nat} {m : Isa.Mnemonic} {o : Operand} {v : Int}
    (hlabel : ∀ name, o = .label name → p.labelPc? name = q.labelPc? name)
    (h : p.operandValue pc m o = .ok v) : q.operandValue pc' m o = .ok v := by
  cases o with
  | label name =>
    rw [operandValue, hlabel name rfl] at h
    rw [operandValue]
    cases hq : q.labelPc? name with
    | none => simp [hq] at h
    | some target => simpa [hq] using h
  | int _ => exact h
  | reg _ => exact h
  | op _ => exact h

/-- Operands keep their patterns where they keep their values. -/
theorem operandPatterns_mono {pc' k : Nat} {m : Isa.Mnemonic} {os : List Operand}
    {raws : List Word}
    (hvalue : ∀ o ∈ os, ∀ v, p.operandValue pc m o = .ok v → q.operandValue pc' m o = .ok v)
    (h : p.operandPatterns pc m k os = .ok raws) : q.operandPatterns pc' m k os = .ok raws := by
  induction os generalizing k raws with
  | nil => exact h
  | cons o os ih =>
    obtain ⟨raw, rest, hraw, hrest, rfl⟩ := operandPatterns_cons_eq_ok_iff.1 h
    obtain ⟨v, kind, hv, hkind, hpat⟩ := operandPattern_eq_ok_iff.1 hraw
    have hv' : q.operandValue pc' m o = .ok v := hvalue o (List.mem_cons_self ..) v hv
    exact operandPatterns_cons_eq_ok_iff.2 ⟨raw, rest,
      operandPattern_eq_ok_iff.2 ⟨v, kind, hv', hkind, hpat⟩,
      ih (fun o' ho' => hvalue o' (List.mem_cons_of_mem _ ho')) hrest, rfl⟩

/-- An instruction keeps its word where its operands keep their values. -/
theorem encodeInstruction_mono {pc' : Nat}
    (hvalue : ∀ o ∈ i.operands, ∀ v, p.operandValue pc i.mnemonic o = .ok v →
      q.operandValue pc' i.mnemonic o = .ok v)
    (h : p.encodeInstruction pc i = .ok w) : q.encodeInstruction pc' i = .ok w := by
  obtain ⟨raws, hraws, hw⟩ := encodeInstruction_eq_ok_iff.1 h
  exact encodeInstruction_eq_ok_iff.2 ⟨raws, operandPatterns_mono hvalue hraws, hw⟩

/-- The labels among the operands are the jump target. -/
theorem target?_eq_some_of_mem {name : String} (h : .label name ∈ i.operands) :
    i.target? = some name := by
  cases i <;> simp_all [Instruction.operands, Instruction.target?, Instruction.small]

/-- **A word depends on the program only through the label of its jump.** -/
theorem encodeInstruction_congr {pc' : Nat}
    (hlabel : ∀ name, i.target? = some name → p.labelPc? name = q.labelPc? name)
    (h : p.encodeInstruction pc i = .ok w) : q.encodeInstruction pc' i = .ok w := by
  refine encodeInstruction_mono (fun o ho v hv => operandValue_congr (fun name hname => ?_) hv) h
  subst hname
  exact hlabel name (target?_eq_some_of_mem ho)

/-! ### Words and statements -/

theorem encodeFrom_cons_eq_ok_iff {s : Statement} {ss : List Statement} :
    p.encodeFrom pc (s :: ss) = .ok ws ↔
      ∃ w rest, p.encodeInstruction pc s.instruction = .ok w ∧
        p.encodeFrom (pc + 1) ss = .ok rest ∧ ws = w :: rest := by
  simp only [encodeFrom, bind_eq_ok_iff, pure, Except.pure, Except.ok.injEq]
  constructor
  · rintro ⟨w, hw, rest, hrest, rfl⟩
    exact ⟨w, rest, hw, hrest, rfl⟩
  · rintro ⟨w, rest, hw, hrest, rfl⟩
    exact ⟨w, hw, rest, hrest, rfl⟩

/-- Encoding succeeds exactly if every statement has its word. -/
theorem encodeFrom_eq_ok_iff {ss : List Statement} :
    p.encodeFrom pc ss = .ok ws ↔ ws.length = ss.length ∧
      ∀ k s w, ss[k]? = some s → ws[k]? = some w →
        p.encodeInstruction (pc + k) s.instruction = .ok w := by
  induction ss generalizing pc ws with
  | nil => cases ws <;> simp [encodeFrom]
  | cons s ss ih =>
    rw [encodeFrom_cons_eq_ok_iff]
    constructor
    · rintro ⟨w, rest, hw, hrest, rfl⟩
      obtain ⟨hlen, hget⟩ := ih.1 hrest
      refine ⟨by simp [hlen], fun k s' w' hs hw' => ?_⟩
      cases k with
      | zero =>
        obtain rfl : s = s' := by simpa using hs
        obtain rfl : w = w' := by simpa using hw'
        exact hw
      | succ k =>
        rw [← Nat.add_assoc, Nat.add_right_comm]
        exact hget k s' w' (by simpa using hs) (by simpa using hw')
    · rintro ⟨hlen, hget⟩
      cases ws with
      | nil => simp at hlen
      | cons w rest =>
        refine ⟨w, rest, hget 0 s w rfl rfl, ih.2 ⟨by simpa using hlen, fun k s' w' hs hw' => ?_⟩,
          rfl⟩
        rw [Nat.add_assoc, Nat.add_comm 1 k]
        exact hget (k + 1) s' w' (by simpa using hs) (by simpa using hw')

theorem encode_eq_ok_iff : p.encode = .ok ws ↔ ws.length = p.size ∧
    ∀ k s w, p.statements[k]? = some s → ws[k]? = some w →
      p.encodeInstruction k s.instruction = .ok w := by
  rw [encode, encodeFrom_eq_ok_iff]
  simp [size]

theorem length_encode (h : p.encode = .ok ws) : ws.length = p.size := (encode_eq_ok_iff.1 h).1

/-- **The word at a statement's place is the word of its instruction.** -/
theorem exists_word (h : p.encode = .ok ws) {k : Nat} {s : Statement}
    (hs : p.statements[k]? = some s) :
    ∃ w, ws[k]? = some w ∧ p.encodeInstruction k s.instruction = .ok w := by
  obtain ⟨hlen, hget⟩ := encode_eq_ok_iff.1 h
  obtain ⟨hk, -⟩ := Array.getElem?_eq_some_iff.1 hs
  have hlt : k < ws.length := by rw [hlen]; exact hk
  have hw : ws[k]? = some ws[k] := List.getElem?_eq_getElem hlt
  exact ⟨_, hw, hget k s _ hs hw⟩

/-- Encoding fails for the first statement that has no word. -/
theorem fault?_encodeFrom {ss : List Statement} : fault? (p.encodeFrom pc ss) =
    firstFault? (fun pc s => fault? (p.encodeInstruction pc s.instruction)) pc ss := by
  induction ss generalizing pc with
  | nil => rfl
  | cons s ss ih =>
    rw [encodeFrom, firstFault?_cons]
    refine fault?_bind rfl fun w => ?_
    rw [← ih]
    exact fault?_map _ _

/-- **If encoding fails, it does so with the fault of the first statement that has no word.** -/
theorem encode_eq_error {err : AssemblyError} (h : p.encode = .error err) :
    ∃ k s, p.statements[k]? = some s ∧ p.encodeInstruction k s.instruction = .error err ∧
      ∀ j s', j < k → p.statements[j]? = some s' →
        ∃ w, p.encodeInstruction j s'.instruction = .ok w := by
  rw [← fault?_eq_some_iff, encode, fault?_encodeFrom, firstFault?_eq_some_iff] at h
  simp only [Nat.zero_add, fault?_eq_some_iff, fault?_eq_none_iff, Array.getElem?_toList] at h
  obtain ⟨k, s, hs, hfails, hbefore⟩ := h
  exact ⟨k, s, hs, hfails, fun j s' hj => hbefore j hj s'⟩

end Program
end PulseProcessor
