import PulseProcessor.Proofs.Sweep.Nest

/-! # What is added to a program

`Program.Extends` says that one program goes on where another one ends.  Two relations say with
what: `Program.AddsOnly P` with instructions that all satisfy `P`, in any number, and
`Program.Emits code` with the instructions of `code`, one after the other.  Labels may come along.

Whatever opens, steps or closes a loop only computes in the loop's own registers.
-/

namespace PulseProcessor
namespace Program

variable {P : Instruction → Prop} {p q r : Program} {i : Instruction} {pc : Nat}

/-! ### Places -/

theorem At.lt_size (h : p.At pc i) : pc < p.size := by
  obtain ⟨comment, hs⟩ := h
  exact (Array.getElem?_eq_some_iff.1 hs).1

/-- What stands in front of the end of a program has stood there before the program grew. -/
theorem At.of_extends (h : q.At pc i) (hpq : p.Extends q) (hlt : pc < p.size) : p.At pc i := by
  obtain ⟨comment, hs⟩ := h
  have hp : p.statements[pc]? = some p.statements[pc] := Array.getElem?_eq_getElem hlt
  rw [hpq.getElem? hp, Option.some.injEq] at hs
  exact ⟨comment, by rw [hp, hs]⟩

/-- The instructions, without their comments. -/
def instructions (p : Program) : List Instruction := p.statements.toList.map (·.instruction)

@[simp] theorem length_instructions : p.instructions.length = p.size := by
  simp [instructions, size]

theorem at_iff : p.At pc i ↔ p.instructions[pc]? = some i := by
  rw [instructions, List.getElem?_map, Option.map_eq_some_iff]
  constructor
  · rintro ⟨comment, hs⟩
    exact ⟨_, by simpa using hs, rfl⟩
  · rintro ⟨⟨_, comment⟩, hs, rfl⟩
    exact ⟨comment, by simpa using hs⟩

/-! ### Additions of one kind -/

/-- **All that one program has beyond another satisfies a predicate.** -/
structure AddsOnly (P : Instruction → Prop) (p q : Program) : Prop extends p.Extends q where
  only : ∀ pc i, p.size ≤ pc → q.At pc i → P i

namespace AddsOnly

theorem of_statements_eq (h : p.Extends q) (hsize : q.size = p.size) : AddsOnly P p q :=
  ⟨h, fun _ _ hle hat => by have := hat.lt_size; omega⟩

theorem refl (p : Program) : AddsOnly P p p := of_statements_eq (.refl p) rfl

theorem trans (h : AddsOnly P p q) (h' : AddsOnly P q r) : AddsOnly P p r where
  toExtends := h.toExtends.trans h'.toExtends
  only pc i hle hat := by
    rcases Nat.lt_or_ge pc q.size with hlt | hge
    · exact h.only pc i hle (hat.of_extends h'.toExtends hlt)
    · exact h'.only pc i hge hat

theorem mono {Q : Instruction → Prop} (h : AddsOnly P p q) (hPQ : ∀ i, P i → Q i) :
    AddsOnly Q p q :=
  ⟨h.toExtends, fun pc i hle hat => hPQ i (h.only pc i hle hat)⟩

theorem of_append (p : Program) (comment : Option String) (hi : P i) :
    AddsOnly P p (p.append i comment) where
  toExtends := extends_append ..
  only pc i' hle hat := by
    have hlt := hat.lt_size
    rw [size_append] at hlt
    obtain rfl : pc = p.size := by omega
    have hsame := at_iff.1 (at_append p i comment)
    rw [at_iff.1 hat, Option.some.injEq] at hsame
    exact hsame ▸ hi

theorem append (h : AddsOnly P p q) (comment : Option String) (hi : P i) :
    AddsOnly P p (q.append i comment) :=
  h.trans (of_append q comment hi)

theorem of_defineLabel {name : String} (h : p.defineLabel name = .ok q) : AddsOnly P p q :=
  of_statements_eq (extends_defineLabel h) (size_defineLabel h)

theorem of_foldl {α : Type} {f : Program → α → Program} {xs : List α}
    (hf : ∀ (p : Program), ∀ x ∈ xs, AddsOnly P p (f p x)) (p : Program) :
    AddsOnly P p (xs.foldl f p) := by
  induction xs generalizing p with
  | nil => exact refl p
  | cons x xs ih =>
    exact (hf p x (List.mem_cons_self ..)).trans
      (ih (fun p y hy => hf p y (List.mem_cons_of_mem x hy)) (f p x))

/-- Of a longer program, what stands in the part that has been added. -/
theorem between (h : AddsOnly P p q) (hqr : q.Extends r) (hle : p.size ≤ pc) (hlt : pc < q.size)
    (hat : r.At pc i) : P i :=
  h.only pc i hle (hat.of_extends hqr hlt)

end AddsOnly

/-! ### Code of a given length -/

/-- **One program goes on where another one ends, with the instructions of `code`.** -/
structure Emits (p : Program) (code : List Instruction) (q : Program) : Prop
    extends p.Extends q where
  instructions : q.instructions = p.instructions ++ code

namespace Emits

variable {code : List Instruction} {k : Nat}

theorem size_eq (h : p.Emits code q) : q.size = p.size + code.length := by
  rw [← length_instructions, h.instructions, List.length_append, length_instructions]

theorem at_add (h : p.Emits code q) (hi : code[k]? = some i) : q.At (p.size + k) i := by
  rw [at_iff, h.instructions, ← length_instructions, List.getElem?_append_right (by omega)]
  simpa using hi

theorem addsOnly (h : p.Emits code q) (hcode : ∀ i ∈ code, P i) : AddsOnly P p q where
  toExtends := h.toExtends
  only pc i hle hat := by
    rw [at_iff, h.instructions,
      List.getElem?_append_right (by rwa [length_instructions])] at hat
    exact hcode i (List.mem_of_getElem? hat)

end Emits
end Program

/-! ### Writes and stores -/

namespace Instruction

/-- The register that an instruction writes; a counted jump writes its counter. -/
def written? : Instruction → Option Register
  | .loopnz page reg _ => some ⟨page, reg⟩
  | i => i.destination?

/-- **The instruction writes one of the registers.** -/
def Writes (rs : List Register) (i : Instruction) : Prop := ∃ r ∈ rs, i.written? = some r

/-- **The instruction writes a word of data memory.** -/
def stores : Instruction → Bool
  | .memwi .. | .memw .. => true
  | _ => false

variable {i : Instruction} {rs : List Register} {r : Register}

theorem written?_of_destination? (h : i.destination? = some r) : i.written? = some r := by
  cases i
  case loopnz => cases h
  all_goals exact h

/-- An instruction that writes a register writes no word of data memory. -/
theorem Writes.stores_eq (h : i.Writes rs) : i.stores = false := by
  obtain ⟨r, -, hr⟩ := h
  cases i
  case memwi | memw => cases hr
  all_goals rfl

end Instruction

namespace SweepGenerator

open Program (AddsOnly)

variable {p : Program} {s : Sweep} {rs : List Register}

theorem addsOnly_loadConstant {page reg : UInt8} (hr : ⟨page, reg⟩ ∈ rs) (p : Program) (v : Int)
    (comment : Option String) : AddsOnly (·.Writes rs) p (p.loadConstant page reg v comment) := by
  unfold Program.loadConstant
  split
  · exact .of_append _ _ ⟨_, hr, rfl⟩
  · have htwo : AddsOnly (·.Writes rs) p ((p.append (.regwi page reg (v / 4)) comment).append
        (.bitwi page reg reg (.known .shl) 2)) := by
      refine (AddsOnly.of_append _ _ ?_).append _ ?_ <;> exact ⟨_, hr, rfl⟩
    dsimp only
    split
    · exact htwo
    · exact htwo.append _ ⟨_, hr, rfl⟩

theorem addsOnly_advance {r : SweptRegister} (hr : r.register ∈ rs) (p : Program) :
    AddsOnly (·.Writes rs) p (advance p r) := by
  unfold advance
  dsimp only
  split
  · exact .of_append _ _ ⟨_, hr, rfl⟩
  · split
    · refine ((AddsOnly.of_append _ _ ?_).append _ ?_).append _ ?_ <;> exact ⟨_, hr, rfl⟩
    · refine (AddsOnly.of_append _ _ ?_).append _ ?_ <;> exact ⟨_, hr, rfl⟩

theorem counter_mem_owned (s : Sweep) : s.counter ∈ s.owned := List.mem_cons_self ..

theorem register_mem_owned {r : SweptRegister} (hr : r ∈ s.registers) : r.register ∈ s.owned :=
  List.mem_cons_of_mem _ (List.mem_map_of_mem hr)

/-- **A sweep loads registers of its own.** -/
theorem addsOnly_loaded (p : Program) (s : Sweep) : AddsOnly (·.Writes s.owned) p (loaded p s) :=
  (AddsOnly.of_foldl (fun p _ hr =>
    addsOnly_loadConstant (register_mem_owned hr) p ..) p).trans
      (addsOnly_loadConstant (counter_mem_owned s) ..)

/-- **A sweep steps and counts down registers of its own.** -/
theorem addsOnly_leave (g outer : SweepGenerator) (s : Sweep) :
    AddsOnly (·.Writes s.owned) g.program (g.leave outer s).program :=
  (AddsOnly.of_foldl (fun p _ hr => addsOnly_advance (register_mem_owned hr) p) g.program).append _
    ⟨s.counter, counter_mem_owned s, rfl⟩

end SweepGenerator
end PulseProcessor
