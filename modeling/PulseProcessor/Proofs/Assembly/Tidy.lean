import PulseProcessor.Proofs.Assembly.Extension
import PulseProcessor.Proofs.Text.Lines

/-! # Tidy programs

A program that has grown from the empty one is as a listing needs it (`Program.Tidy`): its comments
are single lines, and its labels have proper names, are pairwise distinct and come in the order of
the places they mark.
-/

namespace PulseProcessor
namespace Program

variable {p q : Program} {name : String}

/-- **Comments and labels are as a listing needs them.** -/
structure Tidy (p : Program) : Prop where
  comment : ∀ s ∈ p.statements.toList, ∀ text ∈ s.comment, Text.Unbroken text.toList
  name : ∀ l ∈ p.labels.toList, isLabelName l.1 = true
  distinct : (p.labels.toList.map (·.1)).Nodup
  ordered : p.labels.toList.Pairwise (·.2 ≤ ·.2)
  within : ∀ l ∈ p.labels.toList, l.2 ≤ p.size

theorem unbroken_oneLine (comment : String) : Text.Unbroken (oneLine comment).toList := by
  intro c hc
  rw [oneLine, String.toList_map, List.mem_map] at hc
  obtain ⟨d, -, rfl⟩ := hc
  by_cases hn : d = '\n'
  · simp [hn, Text.IsBreak]
  · by_cases hr : d = '\r'
    · simp [hr, Text.IsBreak]
    · simp [hn, hr, Text.IsBreak]

namespace Tidy

theorem empty : Tidy {} where
  comment := by simp
  name := by simp
  distinct := by simp
  ordered := by simp
  within := by simp

theorem append (h : p.Tidy) (i : Instruction) (comment : Option String) :
    (p.append i comment).Tidy where
  comment := by
    intro s hs text htext
    simp only [Program.append, Array.toList_push, List.mem_append, List.mem_singleton] at hs
    rcases hs with hs | rfl
    · exact h.comment s hs text htext
    · obtain ⟨original, -, rfl⟩ := Option.map_eq_some_iff.1 htext
      exact unbroken_oneLine original
  name := h.name
  distinct := h.distinct
  ordered := h.ordered
  within l hl := Nat.le_trans (h.within l hl) (by simp)

theorem defineLabel (h : p.Tidy) (hname : p.defineLabel name = .ok q) : q.Tidy := by
  obtain ⟨hproper, hnone, rfl⟩ := defineLabel_eq_ok_iff.1 hname
  have hnew := labelPc?_eq_none_iff.1 hnone
  refine ⟨h.comment, ?_, ?_, ?_, ?_⟩ <;> simp only [Array.toList_push]
  · intro l hl
    rcases List.mem_append.1 hl with hl | hl
    · exact h.name l hl
    · rw [List.mem_singleton.1 hl]
      exact hproper
  · rw [List.map_append, List.nodup_append]
    refine ⟨h.distinct, by simp, ?_⟩
    intro a ha b hb
    obtain ⟨l, hl, rfl⟩ := List.mem_map.1 ha
    rw [List.mem_singleton.1 hb]
    exact hnew l hl
  · -- The new label marks the end of the program, and none of before marks a later place.
    rw [List.pairwise_append]
    refine ⟨h.ordered, by simp, ?_⟩
    intro l hl l' hl'
    rw [List.mem_singleton.1 hl']
    exact h.within l hl
  · intro l hl
    rcases List.mem_append.1 hl with hl | hl
    · exact h.within l hl
    · rw [List.mem_singleton.1 hl]
      exact Nat.le_refl _

theorem of_grows (h : p.Grows q) (hp : p.Tidy) : q.Tidy := by
  induction h with
  | refl => exact hp
  | append _ i comment ih => exact ih.append i comment
  | defineLabel _ hname ih => exact ih.defineLabel hname

end Tidy
end Program
end PulseProcessor
