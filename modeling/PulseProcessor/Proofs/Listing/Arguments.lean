import PulseProcessor.Proofs.Listing.Grammar

/-! # The grammar of operand lists

Operands are separated by a comma with blanks around it, or by blanks alone.  An operand list is
read one operand after the other and ends at a semicolon, in front of which there may be blanks
(`moreOperands_more`).  Every separator is an end for the token in front of it, so tokens are never
read shorter or longer than they are, and two lists that look the same are the same
(`More.eq_of_text_append`).
-/

namespace PulseProcessor.Listing

variable {cs rest : List Char}

/-! ### Separators -/

/-- What stands between two operands. -/
inductive Separator where
  | comma (before after : Gap)
  | blanks (gap : Gap) (h : gap.chars ≠ [])

def Separator.text : Separator → List Char
  | comma before after => before.chars ++ ',' :: after.chars
  | blanks gap _ => gap.chars

theorem Token.begins (t : Token) (h : Ended rest) : Begins (t.text ++ rest) :=
  begins_of_operand? (operand?_token t h)

/-- **A separator is read if an operand may follow.** -/
theorem separator?_separator (s : Separator) (h : Begins rest) :
    separator? (s.text ++ rest) = some rest := by
  cases s with
  | comma before after =>
    have hcomma : skipSpaces (before.chars ++ ',' :: (after.chars ++ rest)) =
        ',' :: (after.chars ++ rest) := skipSpaces_gap before (stops_cons rfl)
    rw [Separator.text, List.append_assoc, List.cons_append, separator?, hcomma]
    exact congrArg some (skipSpaces_gap after h.stops)
  | blanks gap hne =>
    rw [Separator.text, separator?, skipSpaces_gap gap h.stops]
    obtain ⟨c, hc, tail, rfl⟩ := h
    split
    · rename_i heq
      obtain rfl := List.head_eq_of_cons_eq heq
      exact absurd (by decide) hc
    · rw [if_pos (by simp [List.length_pos_iff.2 hne])]

theorem exists_separator (h : separator? cs = some rest) : ∃ s : Separator, s.text ++ rest = cs := by
  obtain ⟨gap, hgap, -⟩ := exists_gap cs
  unfold separator? at h
  split at h
  · rename_i tail htail
    obtain rfl := Option.some.inj h
    obtain ⟨gap', hgap', -⟩ := exists_gap tail
    refine ⟨.comma gap gap', ?_⟩
    rw [Separator.text, List.append_assoc, List.cons_append, hgap', ← htail, hgap]
  · split at h
    · rename_i hlt
      obtain rfl := Option.some.inj h
      refine ⟨.blanks gap fun hnil => ?_, hgap⟩
      rw [hnil, List.nil_append] at hgap
      rw [hgap] at hlt
      exact Nat.lt_irrefl _ hlt
    · contradiction

theorem Separator.eq_of_text {s s' : Separator} (h : s.text = s'.text) : s = s' := by
  have hmixed {before after gap : Gap} (h : before.chars ++ ',' :: after.chars = gap.chars) :
      False := absurd (gap.blank ',' (by simp [← h])) (by decide)
  cases s <;> cases s'
  case comma.comma before after before' after' =>
    obtain ⟨hbefore, hafter⟩ :=
      span_inj before.blank before'.blank (stops_cons rfl) (stops_cons rfl) h
    obtain rfl := Gap.ext hbefore
    obtain rfl := Gap.ext (List.tail_eq_of_cons_eq hafter)
    rfl
  case comma.blanks => exact (hmixed h).elim
  case blanks.comma => exact (hmixed h.symm).elim
  case blanks.blanks =>
    obtain rfl := Gap.ext h
    rfl

/-! ### Ends -/

theorem ended_of_blank {c : Char} (hc : isSpace c = true) : Ended (c :: cs) := by
  simp only [isSpace, Bool.or_eq_true, beq_iff_eq] at hc
  rcases hc with rfl | rfl <;> exact ⟨_, by decide, cs, rfl⟩

theorem Gap.ended (gap : Gap) (h : Ended rest) : Ended (gap.chars ++ rest) := by
  obtain ⟨chars, hblank⟩ := gap
  cases chars with
  | nil => exact h
  | cons c chars => exact ended_of_blank (hblank c (List.mem_cons_self ..))

theorem Separator.ended (s : Separator) (rest : List Char) : Ended (s.text ++ rest) := by
  cases s with
  | comma before after =>
    rw [text, List.append_assoc]
    exact before.ended ⟨',', by decide, after.chars ++ rest, rfl⟩
  | blanks gap hne =>
    obtain ⟨chars, hblank⟩ := gap
    cases chars with
    | nil => exact absurd rfl hne
    | cons c chars => exact ended_of_blank (hblank c (List.mem_cons_self ..))

/-- A text that ends an instruction: a semicolon, with blanks in front of it. -/
def Closes (cs : List Char) : Prop := ∃ (gap : Gap) (tail : List Char), cs = gap.chars ++ ';' :: tail

theorem Closes.ended (h : Closes rest) : Ended rest := by
  obtain ⟨gap, tail, rfl⟩ := h
  exact gap.ended ⟨';', by decide, tail, rfl⟩

/-- At the end of an instruction no operand follows, although there may be blanks. -/
theorem Closes.moreOperands (h : Closes rest) : moreOperands rest = ([], rest) := by
  obtain ⟨gap, tail, rfl⟩ := h
  have hskip : skipSpaces (gap.chars ++ ';' :: tail) = ';' :: tail :=
    skipSpaces_gap gap (stops_cons rfl)
  rw [Listing.moreOperands]
  split
  · rfl
  · rename_i next hs
    have hnext : next = ';' :: tail := by
      simp only [separator?, hskip] at hs
      split at hs
      · rename_i heq
        exact absurd (List.head_eq_of_cons_eq heq) (by decide)
      · split at hs
        · exact (Option.some.inj hs).symm
        · contradiction
    have hnone : operand? next = none := hnext ▸ operand?_eq_none (by decide)
    split
    · rfl
    · rename_i ho
      rw [hnone] at ho
      contradiction

/-! ### Operand lists -/

/-- The operands behind the first one, with what separates them. -/
inductive More where
  | nil
  | cons (s : Separator) (t : Token) (more : More)

namespace More

def text : More → List Char
  | nil => []
  | cons s t more => s.text ++ (t.text ++ more.text)

def operands : More → List Operand
  | nil => []
  | cons _ t more => t.operand :: more.operands

/-- All tokens are taken as far as they go. -/
def Munched (rest : List Char) : More → Prop
  | nil => True
  | cons _ t more => t.Munched (more.text ++ rest) ∧ more.Munched rest

theorem text_cons_append (s : Separator) (t : Token) (more : More) (rest : List Char) :
    (cons s t more).text ++ rest = s.text ++ (t.text ++ (more.text ++ rest)) := by
  simp [text]

theorem ended (more : More) (h : Closes rest) : Ended (more.text ++ rest) := by
  cases more with
  | nil => exact h.ended
  | cons s t more =>
    rw [text_cons_append]
    exact s.ended _

end More

/-- **Operands are read one after the other**, up to the end of the instruction. -/
theorem moreOperands_more (more : More) (h : Closes rest) :
    moreOperands (more.text ++ rest) = (more.operands, rest) := by
  induction more with
  | nil => exact h.moreOperands
  | cons s t more ih =>
    have hend := more.ended h
    rw [More.text_cons_append,
      moreOperands_cons (separator?_separator s (t.begins hend)) (operand?_token t hend), ih]
    rfl

theorem exists_more (cs : List Char) : ∃ more : More, more.operands = (moreOperands cs).1 ∧
    more.text ++ (moreOperands cs).2 = cs ∧ more.Munched (moreOperands cs).2 := by
  fun_induction moreOperands cs with
  | case1 => exact ⟨.nil, rfl, rfl, trivial⟩
  | case2 => exact ⟨.nil, rfl, rfl, trivial⟩
  | case3 cs next hs o rest ho hlt os rest' hmore ih =>
    rw [hmore] at ih
    obtain ⟨s, rfl⟩ := exists_separator hs
    obtain ⟨t, rfl, rfl, ht⟩ := exists_token ho
    obtain ⟨more, rfl, rfl, hmunched⟩ := ih
    exact ⟨.cons s t more, rfl, More.text_cons_append .., ht, hmunched⟩

/-- Where both end, operands that look the same are the same. -/
theorem More.eq_of_text_append {more more' : More} (h : Closes rest)
    (heq : more.text ++ rest = more'.text ++ rest) : more = more' := by
  have hread := moreOperands_more more h
  rw [heq, moreOperands_more more' h] at hread
  have hoperands : more'.operands = more.operands := congrArg Prod.fst hread
  clear hread
  induction more generalizing more' with
  | nil =>
    cases more' with
    | nil => rfl
    | cons => cases hoperands
  | cons s t more ih =>
    cases more' with
    | nil => cases hoperands
    | cons s' t' more' =>
      rw [text_cons_append, text_cons_append] at heq
      -- The separators are read alike, and so are the tokens behind them.
      have hs := separator?_separator s (t.begins (more.ended h))
      rw [heq, separator?_separator s' (t'.begins (more'.ended h))] at hs
      obtain hnext := Option.some.inj hs
      have ht := operand?_token t (more.ended h)
      rw [← hnext, operand?_token t' (more'.ended h)] at ht
      obtain ⟨-, hmore⟩ := Prod.mk.inj (Option.some.inj ht)
      rw [← hnext] at heq
      obtain rfl := Separator.eq_of_text (List.append_cancel_right heq)
      rw [hmore] at hnext
      obtain rfl := Token.eq_of_text (List.append_cancel_right hnext)
      rw [ih hmore.symm (List.cons.inj hoperands).2]

/-- An operand list as it is written. -/
structure Arguments where
  first : Token
  more : More

namespace Arguments

def text (a : Arguments) : List Char := a.first.text ++ a.more.text

def operands (a : Arguments) : List Operand := a.first.operand :: a.more.operands

def Munched (rest : List Char) (a : Arguments) : Prop :=
  a.first.Munched (a.more.text ++ rest) ∧ a.more.Munched rest

end Arguments

end PulseProcessor.Listing
