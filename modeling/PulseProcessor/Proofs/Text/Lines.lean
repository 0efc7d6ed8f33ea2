import Mathlib.Data.List.DropRight
import PulseProcessor.Text.Lines

/-! # Lines taken apart

A text in which no line break stands is one line, and is cut off as such at the line feed behind
it.  A carriage return goes with the line feed behind it (`splitLines_feed`), and a comment with all
that stands behind its beginning.

Trimming the end of a line leaves everything in front of its last visible character alone.  The two
ends of a text can be trimmed in either order, and once is enough (`trim_trim`).
-/

namespace PulseProcessor.Text

/-- Characters at which a line may end. -/
def IsBreak (c : Char) : Prop := c = '\n' ∨ c = '\r'

instance : DecidablePred IsBreak := fun c => inferInstanceAs (Decidable (c = '\n' ∨ c = '\r'))

/-- A text within one line. -/
def Unbroken (cs : List Char) : Prop := ∀ c ∈ cs, ¬ IsBreak c

instance : DecidablePred Unbroken := List.decidableBAll (¬ IsBreak ·)

theorem unbroken_nil : Unbroken [] := by simp [Unbroken]

theorem unbroken_cons {c : Char} {cs : List Char} :
    Unbroken (c :: cs) ↔ ¬ IsBreak c ∧ Unbroken cs := by
  simp [Unbroken]

theorem unbroken_append {xs ys : List Char} :
    Unbroken (xs ++ ys) ↔ Unbroken xs ∧ Unbroken ys := by
  simp [Unbroken, or_imp, forall_and]

theorem splitLines_append {cs : List Char} (h : Unbroken cs) (rest : List Char) :
    splitLines (cs ++ '\n' :: rest) = cs :: splitLines rest := by
  induction cs with
  | nil => rfl
  | cons c cs ih =>
    obtain ⟨hc, hcs⟩ := unbroken_cons.1 h
    obtain ⟨hfeed, hreturn⟩ := not_or.1 hc
    rw [List.cons_append, splitLines, ih hcs]
    · exact hfeed
    · exact fun _ hc _ => hreturn hc

/-- The lines of a text that is made of lines. -/
theorem splitLines_flatMap {lines : List String}
    (h : ∀ line ∈ lines, Unbroken line.toList) :
    splitLines (lines.flatMap fun line => line.toList ++ ['\n']) = lines.map String.toList := by
  induction lines with
  | nil => rfl
  | cons line lines ih =>
    rw [List.flatMap_cons, List.append_assoc, List.singleton_append,
      splitLines_append (h line (by simp)), ih fun l hl => h l (by simp [hl])]
    rfl

/-- A line feed ends a line; a carriage return in front of it belongs to the end. -/
theorem splitLines_feed {cs : List Char} (h : '\n' ∉ cs) (rest : List Char) :
    ∃ line, splitLines (cs ++ '\n' :: rest) = line :: splitLines rest ∧
      (line = cs ∨ line ++ ['\r'] = cs) := by
  induction cs with
  | nil => exact ⟨[], rfl, .inl rfl⟩
  | cons c cs ih =>
    obtain ⟨hc, hcs⟩ := not_or.1 (mt List.mem_cons.2 h)
    obtain ⟨line, hline, hends⟩ := ih hcs
    by_cases hreturn : c = '\r' ∧ cs = []
    · obtain ⟨rfl, rfl⟩ := hreturn
      exact ⟨[], rfl, .inr rfl⟩
    · refine ⟨c :: line, ?_, hends.imp (congrArg (c :: ·)) (congrArg (c :: ·))⟩
      rw [List.cons_append, splitLines, hline]
      · exact fun h => hc h.symm
      · intro cs' hr hcs'
        cases cs with
        | nil => exact hreturn ⟨hr, rfl⟩
        | cons d ds => simp_all

theorem splitLines_of_not_mem {cs : List Char} (h : '\n' ∉ cs) (hne : cs ≠ []) :
    splitLines cs = [cs] := by
  induction cs with
  | nil => contradiction
  | cons c cs ih =>
    obtain ⟨hc, hcs⟩ := not_or.1 (mt List.mem_cons.2 h)
    cases cs with
    | nil =>
      rw [splitLines, splitLines]
      · exact fun h => hc h.symm
      · simp
    | cons d ds =>
      rw [splitLines, ih hcs (by simp)]
      · exact fun h => hc h.symm
      · intro cs' _ hcs'
        simp_all

/-- The same for lines with line feeds between them, if none is empty. -/
theorem splitLines_intercalate {lines : List String} (h : ∀ line ∈ lines, Unbroken line.toList)
    (hne : ∀ line ∈ lines, line.toList ≠ []) :
    splitLines (['\n'].intercalate (lines.map String.toList)) = lines.map String.toList := by
  induction lines with
  | nil => rfl
  | cons line lines ih =>
    obtain ⟨hline, hlines⟩ := List.forall_mem_cons.1 h
    obtain ⟨hfirst, hothers⟩ := List.forall_mem_cons.1 hne
    cases lines with
    | nil => simpa using splitLines_of_not_mem (fun hc => hline _ hc (.inl rfl)) hfirst
    | cons next lines =>
      rw [List.map_cons, List.intercalate_cons_of_ne_nil (by simp), List.append_assoc,
        List.singleton_append, splitLines_append hline, ih hlines hothers]

theorem toList_join_ended (lines : List String) :
    (String.join (lines.map (· ++ "\n"))).toList =
      lines.flatMap fun line => line.toList ++ ['\n'] := by
  rw [String.toList_join, List.flatMap_map]
  simp only [String.toList_append]
  rfl

/-! ### Comments -/

theorem beforeComment_append {xs : List Char} (h : '/' ∉ xs) (ys : List Char) :
    beforeComment (xs ++ ys) = xs ++ beforeComment ys := by
  induction xs with
  | nil => rfl
  | cons c xs ih =>
    obtain ⟨hc, hxs⟩ := not_or.1 (mt List.mem_cons.2 h)
    rw [List.cons_append, beforeComment, ih hxs]
    · rfl
    · intro cs' hslash
      exact absurd hslash.symm hc

/-- A character at the end of a line is part of the comment, if there is one. -/
theorem beforeComment_concat {c : Char} (hc : c ≠ '/') (cs : List Char) :
    beforeComment (cs ++ [c]) = beforeComment cs ++ [c] ∨
      beforeComment (cs ++ [c]) = beforeComment cs := by
  fun_induction beforeComment cs with
  | case1 =>
    have hslash : '/' ∉ [c] := by simpa using hc.symm
    exact .inl (beforeComment_append hslash [])
  | case2 => exact .inr rfl
  | case3 d ds hslashes ih =>
    have hstep : beforeComment (d :: (ds ++ [c])) = d :: beforeComment (ds ++ [c]) := by
      rw [beforeComment]
      intro cs' hd hds
      cases ds with
      | nil => simp_all
      | cons x ds => exact hslashes ds hd (by simp_all)
    rw [List.cons_append, hstep]
    exact ih.imp (congrArg (d :: ·)) (congrArg (d :: ·))

/-! ### Both ends -/

theorem trimEnd_append {c : Char} (hc : isBlank c = false) (xs ys : List Char) :
    trimEnd (xs ++ c :: ys) = xs ++ c :: trimEnd ys := by
  simp only [trimEnd, List.reverse_append, List.reverse_cons, List.append_assoc,
    List.singleton_append, List.dropWhile_append]
  split
  · rename_i hempty
    simp [hc, List.isEmpty_iff.1 hempty]
  · simp

/-- Trimming one end does nothing to the other. -/
theorem trimStart_trimEnd (cs : List Char) : trimStart (trimEnd cs) = trimEnd (trimStart cs) := by
  have hsplit : cs.takeWhile isBlank ++ trimStart cs = cs := List.takeWhile_append_dropWhile
  have hblank : ∀ c ∈ cs.takeWhile isBlank, isBlank c = true := fun c => List.mem_takeWhile_imp
  cases hrest : trimStart cs with
  | nil =>
    rw [hrest, List.append_nil] at hsplit
    rw [hsplit] at hblank
    have hend : trimEnd cs = [] := List.rdropWhile_eq_nil_iff.2 hblank
    rw [hend]
    rfl
  | cons c ds =>
    -- The first visible character keeps the two ends apart.
    have hvisible : isBlank c = false := by
      have := List.head?_dropWhile_not isBlank cs
      rwa [show cs.dropWhile isBlank = c :: ds from hrest] at this
    have hend : trimEnd cs = cs.takeWhile isBlank ++ c :: trimEnd ds := by
      rw [← trimEnd_append hvisible, ← hrest, hsplit]
    have hend' : trimEnd (c :: ds) = c :: trimEnd ds := trimEnd_append hvisible [] ds
    rw [hend, hend', trimStart, List.dropWhile_append_of_pos hblank]
    exact List.dropWhile_cons_of_neg (by simp [hvisible])

theorem trimEnd_trimEnd (cs : List Char) : trimEnd (trimEnd cs) = trimEnd cs :=
  List.rdropWhile_idempotent isBlank cs

theorem trim_trimEnd (cs : List Char) : trim (trimEnd cs) = trim cs := by
  rw [trim, trimStart_trimEnd, trimEnd_trimEnd]
  rfl

theorem trim_trim (cs : List Char) : trim (trim cs) = trim cs := by
  have hstart : trimStart (trimStart cs) = trimStart cs := List.dropWhile_idempotent isBlank cs
  rw [trim.eq_def cs, trim_trimEnd, trim, hstart]

theorem trimEnd_append_of_blank {ys : List Char} (h : ∀ c ∈ ys, isBlank c = true)
    (xs : List Char) : trimEnd (xs ++ ys) = trimEnd xs := by
  rw [trimEnd, List.reverse_append, List.dropWhile_append_of_pos (by simpa using h)]
  rfl

theorem trim_append_of_blank {ys : List Char} (h : ∀ c ∈ ys, isBlank c = true) (xs : List Char) :
    trim (xs ++ ys) = trim xs := by
  rw [trim, ← trimStart_trimEnd, trimEnd_append_of_blank h, trimStart_trimEnd]
  rfl

theorem trim_append_of_blank_left {xs : List Char} (h : ∀ c ∈ xs, isBlank c = true)
    (ys : List Char) : trim (xs ++ ys) = trim ys :=
  congrArg trimEnd (List.dropWhile_append_of_pos h)

theorem trim_of_visible {cs : List Char} (h : ∀ c ∈ cs, isBlank c = false) : trim cs = cs := by
  have hself (xs : List Char) (hxs : ∀ c ∈ xs, isBlank c = false) : xs.dropWhile isBlank = xs := by
    cases xs with
    | nil => rfl
    | cons x xs => exact List.dropWhile_cons_of_neg (by simp [hxs x (by simp)])
  rw [trim, trimStart, hself cs h, trimEnd, hself cs.reverse (by simpa using h),
    List.reverse_reverse]

theorem trim_sublist (cs : List Char) : (trim cs).Sublist cs :=
  (List.rdropWhile_prefix isBlank (trimStart cs)).sublist.trans (List.dropWhile_sublist _)

theorem Unbroken.trim {cs : List Char} (h : Unbroken cs) : Unbroken (trim cs) :=
  fun c hc => h c ((trim_sublist cs).mem hc)

theorem trim_cons {c : Char} (hc : isBlank c = true) (cs : List Char) : trim (c :: cs) = trim cs :=
  congrArg trimEnd (List.dropWhile_cons_of_pos hc)

theorem dropWhile_map {f : Char → Char} (hf : ∀ c, isBlank (f c) = isBlank c) (cs : List Char) :
    (cs.map f).dropWhile isBlank = (cs.dropWhile isBlank).map f := by
  rw [List.dropWhile_map]
  exact congrArg (fun g => (cs.dropWhile g).map f) (funext hf)

/-- Characters may be exchanged before or after trimming if blanks stay blanks. -/
theorem trim_map {f : Char → Char} (hf : ∀ c, isBlank (f c) = isBlank c) (cs : List Char) :
    trim (cs.map f) = (trim cs).map f := by
  simp only [trim, trimStart, trimEnd, dropWhile_map hf, ← List.map_reverse]

end PulseProcessor.Text
