import PulseProcessor.Proofs.Assembly.Encoding

/-! # Programs only grow

Whatever builds a program appends instructions and defines labels, and does nothing else to it
(`Program.Grows`).  It leaves the statements and labels of before in place and adds to their ends
(`Program.Extends`).  So what stood at a place goes on standing there, and a label goes on marking
the place it marked.
-/

namespace PulseProcessor
namespace Program

/-- **One program goes on where another one ends.** -/
structure Extends (p q : Program) : Prop where
  statements : p.statements.toList <+: q.statements.toList
  labels : p.labels.toList <+: q.labels.toList

variable {p q r : Program} {i : Instruction} {name : String} {pc : Nat}

namespace Extends

theorem refl (p : Program) : p.Extends p := ⟨List.prefix_rfl, List.prefix_rfl⟩

theorem trans (h : p.Extends q) (h' : q.Extends r) : p.Extends r :=
  ⟨h.statements.trans h'.statements, h.labels.trans h'.labels⟩

theorem size_le (h : p.Extends q) : p.size ≤ q.size := by
  have := h.statements.length_le
  simpa [size] using this

theorem getElem? (h : p.Extends q) {s : Statement} (hs : p.statements[pc]? = some s) :
    q.statements[pc]? = some s := by
  obtain ⟨rest, hrest⟩ := h.statements
  rw [← Array.getElem?_toList] at hs ⊢
  obtain ⟨hlt, -⟩ := List.getElem?_eq_some_iff.1 hs
  rw [← hrest, List.getElem?_append_left hlt, hs]

theorem labelPc? (h : p.Extends q) (hname : p.labelPc? name = some pc) :
    q.labelPc? name = some pc := by
  obtain ⟨rest, hrest⟩ := h.labels
  simp only [Program.labelPc?, ← Array.find?_toList, ← hrest, List.find?_append] at hname ⊢
  obtain ⟨l, hl, hpc⟩ := Option.map_eq_some_iff.1 hname
  rw [hl]
  simpa using hpc

end Extends

/-- The instruction at a place. -/
def At (p : Program) (pc : Nat) (i : Instruction) : Prop :=
  ∃ comment, p.statements[pc]? = some ⟨i, comment⟩

theorem At.extends (h : p.At pc i) (hpq : p.Extends q) : q.At pc i :=
  h.imp fun _ hs => hpq.getElem? hs

/-- What stands at a place has its word there. -/
theorem At.exists_word {ws : List Word} (h : p.At pc i) (hp : p.encode = .ok ws) :
    ∃ w, ws[pc]? = some w ∧ p.encodeInstruction pc i = .ok w := by
  obtain ⟨comment, hs⟩ := h
  obtain ⟨w, hw, henc⟩ := Program.exists_word hp hs
  exact ⟨w, hw, henc⟩

/-! ### What each operation adds -/

@[simp] theorem size_append (p : Program) (i : Instruction) (comment : Option String) :
    (p.append i comment).size = p.size + 1 := by
  simp [append, size]

@[simp] theorem labels_append (p : Program) (i : Instruction) (comment : Option String) :
    (p.append i comment).labels = p.labels := rfl

theorem extends_append (p : Program) (i : Instruction) (comment : Option String) :
    p.Extends (p.append i comment) :=
  ⟨by simp [append], List.prefix_rfl⟩

theorem at_append (p : Program) (i : Instruction) (comment : Option String) :
    (p.append i comment).At p.size i :=
  ⟨_, by simp [append, size]; rfl⟩

theorem labelPc?_eq_none_iff : p.labelPc? name = none ↔ ∀ l ∈ p.labels.toList, l.1 ≠ name := by
  simp [labelPc?]

/-- What defining a label asks for, and what it does. -/
theorem defineLabel_eq_ok_iff : p.defineLabel name = .ok q ↔
    isLabelName name = true ∧ p.labelPc? name = none ∧
      { p with labels := p.labels.push (name, p.size) } = q := by
  unfold defineLabel
  cases isLabelName name <;> cases h : p.labelPc? name <;> simp

theorem extends_defineLabel (h : p.defineLabel name = .ok q) : p.Extends q := by
  obtain ⟨-, -, rfl⟩ := defineLabel_eq_ok_iff.1 h
  exact ⟨List.prefix_rfl, by simp⟩

theorem size_defineLabel (h : p.defineLabel name = .ok q) : q.size = p.size := by
  obtain ⟨-, -, rfl⟩ := defineLabel_eq_ok_iff.1 h
  rfl

/-- A new label marks the next place. -/
theorem labelPc?_defineLabel (h : p.defineLabel name = .ok q) :
    q.labelPc? name = some p.size := by
  obtain ⟨-, hnone, rfl⟩ := defineLabel_eq_ok_iff.1 h
  simp only [labelPc?, Option.map_eq_none_iff] at hnone ⊢
  simp [Array.find?_push, hnone]

@[simp] theorem labels_loadConstant (p : Program) (page reg : UInt8) (v : Int)
    (comment : Option String) : (p.loadConstant page reg v comment).labels = p.labels := by
  unfold loadConstant
  split
  · rfl
  · dsimp only
    split <;> rfl

theorem labels_foldl {α : Type} {f : Program → α → Program}
    (hf : ∀ (p : Program) (x : α), (f p x).labels = p.labels) (p : Program) (xs : List α) :
    (xs.foldl f p).labels = p.labels := by
  induction xs generalizing p with
  | nil => rfl
  | cons x xs ih => exact (ih (f p x)).trans (hf p x)

/-- A constant takes at least one instruction. -/
theorem size_lt_size_loadConstant (p : Program) (page reg : UInt8) (v : Int)
    (comment : Option String) : p.size < (p.loadConstant page reg v comment).size := by
  unfold loadConstant
  split
  · simp only [size_append]
    omega
  · dsimp only
    split
    · simp only [size_append]
      omega
    · simp only [size_append]
      omega

/-! ### Growth -/

/-- **One program comes out of another by appending instructions and defining labels.** -/
inductive Grows : Program → Program → Prop
  | refl (p : Program) : Grows p p
  | append {p q : Program} (h : Grows p q) (i : Instruction) (comment : Option String) :
      Grows p (q.append i comment)
  | defineLabel {p q r : Program} {name : String} (h : Grows p q)
      (hname : q.defineLabel name = .ok r) : Grows p r

namespace Grows

theorem trans (h : p.Grows q) (h' : q.Grows r) : p.Grows r := by
  induction h' with
  | refl => exact h
  | append _ i comment ih => exact ih.append i comment
  | defineLabel _ hname ih => exact ih.defineLabel hname

theorem of_append (p : Program) (i : Instruction) (comment : Option String) :
    p.Grows (p.append i comment) :=
  (refl p).append i comment

theorem of_foldl {α : Type} {f : Program → α → Program}
    (hf : ∀ (p : Program) (x : α), p.Grows (f p x)) (p : Program) (xs : List α) :
    p.Grows (xs.foldl f p) := by
  induction xs generalizing p with
  | nil => exact refl p
  | cons x xs ih => exact (hf p x).trans (ih (f p x))

end Grows

theorem Grows.extends (h : p.Grows q) : p.Extends q := by
  induction h with
  | refl => exact .refl _
  | append _ i comment ih => exact ih.trans (extends_append ..)
  | defineLabel _ hname ih => exact ih.trans (extends_defineLabel hname)

/-- **One program comes out of another by appending instructions of one kind.** -/
inductive Writes (P : Instruction → Prop) : Program → Program → Prop
  | refl (p : Program) : Writes P p p
  | append {p q : Program} (h : Writes P p q) {i : Instruction} (hi : P i)
      (comment : Option String) : Writes P p (q.append i comment)

namespace Writes

variable {P : Instruction → Prop}

theorem trans (h : Writes P p q) (h' : Writes P q r) : Writes P p r := by
  induction h' with
  | refl => exact h
  | append _ hi comment ih => exact ih.append hi comment

theorem of_append (p : Program) (comment : Option String) (hi : P i) :
    Writes P p (p.append i comment) :=
  (refl p).append hi comment

theorem of_loadConstant {page reg : UInt8} (hload : ∀ v, P (.regwi page reg v))
    (hshift : P (.bitwi page reg reg (.known .shl) 2))
    (hadd : ∀ v, P (.mathi page reg reg (.known .add) v)) (p : Program) (v : Int)
    (comment : Option String) : Writes P p (p.loadConstant page reg v comment) := by
  unfold loadConstant
  split
  · exact of_append p comment (hload v)
  · have hupper := (of_append p comment (hload (v / 4))).append hshift none
    dsimp only
    split
    · exact hupper
    · exact hupper.append (hadd (v % 4)) none

theorem of_foldl {α : Type} {f : Program → α → Program}
    (hf : ∀ (p : Program) (x : α), Writes P p (f p x)) (p : Program) (xs : List α) :
    Writes P p (xs.foldl f p) := by
  induction xs generalizing p with
  | nil => exact refl p
  | cons x xs ih => exact (hf p x).trans (ih (f p x))

theorem mono {Q : Instruction → Prop} (hPQ : ∀ i, P i → Q i) (h : Writes P p q) :
    Writes Q p q := by
  induction h with
  | refl => exact .refl p
  | append _ hi comment ih => exact ih.append (hPQ _ hi) comment

theorem grows (h : Writes P p q) : p.Grows q := by
  induction h with
  | refl => exact .refl p
  | append _ _ comment ih => exact ih.append _ comment

theorem labels_eq (h : Writes P p q) : q.labels = p.labels := by
  induction h with
  | refl => rfl
  | append _ _ _ ih => exact ih

end Writes

theorem Writes.extends {P : Instruction → Prop} (h : Writes P p q) : p.Extends q :=
  h.grows.extends

theorem Grows.of_loadConstant (p : Program) (page reg : UInt8) (v : Int)
    (comment : Option String) : p.Grows (p.loadConstant page reg v comment) := by
  have hwrites : Writes (fun _ => True) p (p.loadConstant page reg v comment) :=
    .of_loadConstant (fun _ => trivial) trivial (fun _ => trivial) p v comment
  exact hwrites.grows

/-! ### The labels that have been added -/

/-- The places of the labels that a program has beyond those of another. -/
def heads (p q : Program) : List Nat := (q.labels.toList.drop p.labels.size).map (·.2)

theorem heads_of_labels_eq (h : q.labels = p.labels) : p.heads q = [] := by
  simp [heads, h]

theorem heads_defineLabel (h : p.defineLabel name = .ok q) : p.heads q = [p.size] := by
  obtain ⟨-, -, rfl⟩ := defineLabel_eq_ok_iff.1 h
  simp [heads]

theorem heads_trans (h : p.Extends q) (h' : q.Extends r) :
    p.heads r = p.heads q ++ q.heads r := by
  obtain ⟨added, hadded⟩ := h.labels
  obtain ⟨added', hadded'⟩ := h'.labels
  have hdrop : (p.labels.toList ++ added ++ added').drop p.labels.toList.length =
      added ++ added' := by
    rw [List.append_assoc, List.drop_left]
  simp only [heads, ← Array.length_toList, ← hadded', ← hadded, List.drop_left, List.map_append,
    hdrop]

end Program
end PulseProcessor
