import Mathlib.Data.List.Forall2
import PulseProcessor.Listing.Line
import PulseProcessor.Listing.Printer
import PulseProcessor.Proofs.Listing.Token
import PulseProcessor.Proofs.Text.Lines

/-! # Lines read back

A listing has two kinds of lines beside its title: a label with a colon, and an instruction with
its operands, a semicolon and possibly a comment.  Of the table of templates only one thing
matters: every lead but the first is a separator followed by the mark of the operand behind it
(`Instruction.leads_operands`).  So operands are read one after the other, whatever the mnemonic.
-/

namespace PulseProcessor

open Isa (Mnemonic)

namespace Listing

variable {cs rest : List Char}

/-! ### Blanks -/

theorem skipSpaces_cons {c : Char} (hc : isSpace c = false) : skipSpaces (c :: cs) = c :: cs := by
  simp [skipSpaces, hc]

theorem skipSpaces_replicate_append (n : Nat) (cs : List Char) :
    skipSpaces (List.replicate n ' ' ++ cs) = skipSpaces cs := by
  refine List.dropWhile_append_of_pos fun c hc => ?_
  rw [List.eq_of_mem_replicate hc]
  rfl

theorem stops_skipSpaces (cs : List Char) : Stops isSpace (skipSpaces cs) :=
  stops_dropWhile isSpace cs

theorem skipSpaces_of_stops (h : Stops isSpace cs) : skipSpaces cs = cs := by
  cases cs with
  | nil => rfl
  | cons c cs => exact skipSpaces_cons (h c rfl)

/-- No name starts with a blank. -/
theorem stops_name {name : String} (hname : Program.isLabelName name = true) :
    Stops isSpace (name.toList ++ rest) := by
  unfold Program.isLabelName at hname
  split at hname
  · contradiction
  · rename_i c cs hcs
    rw [hcs, List.cons_append]
    refine stops_cons ?_
    cases hspace : isSpace c with
    | false => rfl
    | true =>
      simp only [isSpace, Bool.or_eq_true, beq_iff_eq] at hspace
      rcases hspace with rfl | rfl <;> exact absurd (Bool.and_eq_true_iff.1 hname).1 (by decide)

theorem skipSpaces_name {name : String} (hname : Program.isLabelName name = true) :
    skipSpaces (name.toList ++ rest) = name.toList ++ rest :=
  skipSpaces_of_stops (stops_name hname)

/-- A text that may be an operand, by its first character. -/
def Begins (cs : List Char) : Prop := ∃ c ∉ '\t' :: delimiters, ∃ tail, cs = c :: tail

theorem Begins.stops (h : Begins cs) : Stops isSpace cs := by
  obtain ⟨c, hc, tail, rfl⟩ := h
  simp only [delimiters, List.mem_cons, List.not_mem_nil, or_false, not_or] at hc
  exact stops_cons (by simp [isSpace, hc])

/-- An operand is never mistaken for what stands around operands. -/
theorem begins_of_operand? {o : Operand} (h : operand? cs = some (o, rest)) : Begins cs := by
  cases cs with
  | nil => cases h
  | cons c tail =>
    refine ⟨c, fun hc => ?_, tail, rfl⟩
    rw [operand?_eq_none hc] at h
    contradiction

/-! ### Operand lists -/

/-- What a listing writes in front of an operand that is not the first. -/
def Led (lead : String) (o : Operand) : Prop :=
  lead.toList = ',' :: ' ' :: o.mark ∨ lead.toList = ' ' :: o.mark

/-- Either separator is read as such if an operand is behind it. -/
theorem separator?_lead {lead : String} {o o' : Operand} (hlead : Led lead o)
    (h : operand? (o.mark ++ cs) = some (o', rest)) :
    separator? (lead.toList ++ cs) = some (o.mark ++ cs) := by
  have hbegins := begins_of_operand? h
  have hskip := skipSpaces_of_stops hbegins.stops
  obtain ⟨c, hc, tail, htail⟩ := hbegins
  -- Behind a comma any blanks may follow; a blank alone must not have a comma behind it.
  rcases hlead with hlead | hlead <;> rw [hlead]
  · have hcomma : skipSpaces (',' :: ' ' :: o.mark ++ cs) = ',' :: ' ' :: (o.mark ++ cs) :=
      skipSpaces_cons rfl
    have hblank : skipSpaces (' ' :: (o.mark ++ cs)) = skipSpaces (o.mark ++ cs) := rfl
    simp only [separator?, hcomma, hblank, hskip]
  · have hblank : skipSpaces (' ' :: o.mark ++ cs) = o.mark ++ cs := hskip
    rw [separator?, hblank, htail]
    split
    · rename_i heq
      obtain rfl := List.head_eq_of_cons_eq heq
      exact absurd (by decide) hc
    · rw [List.cons_append, htail, if_pos (by simp)]

theorem moreOperands_cons {next : List Char} {o : Operand} (hs : separator? cs = some next)
    (ho : operand? next = some (o, rest)) :
    moreOperands cs = (o :: (moreOperands rest).1, (moreOperands rest).2) := by
  rw [moreOperands]
  split
  · simp_all
  · rename_i next' hs'
    obtain rfl : next = next' := by simpa [hs] using hs'
    split
    · simp_all
    · rename_i o' rest' ho'
      obtain ⟨rfl, rfl⟩ : o = o' ∧ rest = rest' := by simpa [ho] using ho'
      rfl

theorem moreOperands_semicolon (rest : List Char) :
    moreOperands (';' :: rest) = ([], ';' :: rest) := by
  have hs : separator? (';' :: rest) = none := by
    have hskip : skipSpaces (';' :: rest) = ';' :: rest := skipSpaces_cons rfl
    simp [separator?, hskip]
  rw [moreOperands]
  split
  · rfl
  · simp_all

/-- The texts of operands behind their leads. -/
def led (leads : List String) (os : List Operand) : List Char :=
  (String.join (List.zipWith (· ++ ·) leads (os.map Operand.text))).toList

@[simp] theorem led_cons (lead : String) (leads : List String) (o : Operand) (os : List Operand) :
    led (lead :: leads) (o :: os) = lead.toList ++ o.text.toList ++ led leads os := by
  simp [led, String.toList_join]

theorem delimited_led {leads : List String} {os : List Operand} (h : List.Forall₂ Led leads os)
    (rest : List Char) : Delimited (led leads os ++ ';' :: rest) := by
  cases h with
  | nil => exact ⟨';', by decide, rest, rfl⟩
  | cons hlead _ =>
    rw [led_cons]
    rcases hlead with hlead | hlead <;> rw [hlead]
    · exact ⟨',', by decide, _, rfl⟩
    · exact ⟨' ', by decide, _, rfl⟩

/-- **Operands behind their leads are read one after the other.** -/
theorem moreOperands_led {leads : List String} {os : List Operand}
    (h : List.Forall₂ Led leads os) (hread : ∀ o ∈ os, o.Readable) (rest : List Char) :
    moreOperands (led leads os ++ ';' :: rest) = (os.map Operand.named, ';' :: rest) := by
  induction h with
  | nil => exact moreOperands_semicolon rest
  | cons hlead htail ih =>
    rename_i lead o leads os
    have ho := operand?_append (hread o (by simp)) (delimited_led htail rest)
    rw [List.append_assoc] at ho
    have hs := separator?_lead hlead ho
    -- One separator and one operand are read, and the rest by induction.
    rw [led_cons, List.append_assoc, List.append_assoc, moreOperands_cons hs ho,
      ih fun o' ho' => hread o' (by simp [ho'])]
    rfl

end Listing

/-! ### Instructions -/

theorem Isa.Mnemonic.isLabelName_name (m : Mnemonic) : Program.isLabelName m.name = true := by
  cases m <;> decide

namespace Instruction

variable {i : Instruction} {rest : List Char}

/-- **Every row of the table puts a separator and the right mark in front of every operand but the
first, and the right mark alone in front of that one.** -/
theorem leads_operands (i : Instruction) : (i.mnemonic.layout.leads = [] ∧ i.operands = []) ∨
    ∃ lead leads o os, i.mnemonic.layout.leads = lead :: leads ∧ i.operands = o :: os ∧
      lead.toList = o.mark ∧ List.Forall₂ Listing.Led leads os := by
  cases i
  case halt => exact .inl ⟨rfl, rfl⟩
  all_goals refine .inr ⟨_, _, _, _, rfl, rfl, rfl, ?_⟩
  all_goals simp [small, Listing.Led, Operand.mark]

theorem operandText_of_operands_eq_cons {o : Operand} {os : List Operand}
    (h : i.operands = o :: os) : ∃ leads, List.Forall₂ Listing.Led leads os ∧
      i.operandText.toList = o.mark ++ o.text.toList ++ Listing.led leads os := by
  rcases leads_operands i with ⟨-, hnil⟩ | ⟨lead, leads, o', os', hleads, hos, hlead, hled⟩
  · rw [h] at hnil
    contradiction
  · obtain ⟨rfl, rfl⟩ : o = o' ∧ os = os' := by simpa [h] using hos
    refine ⟨leads, hled, ?_⟩
    rw [← hlead, ← Listing.led_cons, ← h, ← hleads]
    rfl

/-- The first operand is read from the front of the operand text, if there is any. -/
theorem operand?_operandText {o : Operand} {os : List Operand} (h : i.operands = o :: os)
    (hread : ∀ o ∈ i.operands, o.Readable) (rest : List Char) :
    ∃ leads, List.Forall₂ Listing.Led leads os ∧
      Listing.operand? (i.operandText.toList ++ ';' :: rest) =
        some (o.named, Listing.led leads os ++ ';' :: rest) := by
  obtain ⟨leads, hled, htext⟩ := operandText_of_operands_eq_cons h
  refine ⟨leads, hled, ?_⟩
  rw [htext, List.append_assoc]
  exact Listing.operand?_append (hread o (by simp [h])) (Listing.delimited_led hled rest)

theorem operandText_of_operands_eq_nil (h : i.operands = []) : i.operandText.toList = [] := by
  rcases leads_operands i with ⟨hleads, -⟩ | ⟨lead, leads, o, os, -, hos, -⟩
  · rw [operandText, Isa.Layout.render, hleads]
    rfl
  · rw [h] at hos
    contradiction

theorem operands_append (hread : ∀ o ∈ i.operands, o.Readable) (rest : List Char) :
    Listing.operands (i.operandText.toList ++ ';' :: rest) =
      (i.operands.map Operand.named, ';' :: rest) := by
  cases hos : i.operands with
  | nil =>
    -- At the semicolon no operand is found, so the list is empty.
    rw [operandText_of_operands_eq_nil hos, List.nil_append, Listing.operands,
      Listing.operand?_eq_none (by decide)]
    rfl
  | cons o os =>
    obtain ⟨leads, hled, ho⟩ := operand?_operandText hos hread rest
    rw [Listing.operands, ho]
    dsimp only
    rw [Listing.moreOperands_led hled (fun o' ho' => hread o' (by simp [hos, ho']))]
    rfl

/-- The operand text with the semicolon starts with neither a blank nor a colon. -/
theorem head_operandText (hread : ∀ o ∈ i.operands, o.Readable) (rest : List Char) :
    ∃ c tail, i.operandText.toList ++ ';' :: rest = c :: tail ∧ Listing.isSpace c = false ∧
      c ≠ ':' := by
  cases hos : i.operands with
  | nil => exact ⟨';', rest, by rw [operandText_of_operands_eq_nil hos]; rfl, rfl, by decide⟩
  | cons o os =>
    obtain ⟨leads, -, ho⟩ := operand?_operandText hos hread rest
    obtain ⟨c, hc, tail, htail⟩ := Listing.begins_of_operand? ho
    simp only [Listing.delimiters, List.mem_cons, List.not_mem_nil, or_false, not_or] at hc
    exact ⟨c, tail, htail, by simp [Listing.isSpace, hc], hc.2.2.2.1⟩

/-- The operands with the blank in front of them, if there are any. -/
def argument (i : Instruction) : List Char :=
  if i.operandText.isEmpty then [] else ' ' :: i.operandText.toList

theorem skipSpaces_argument (hread : ∀ o ∈ i.operands, o.Readable) (rest : List Char) :
    Listing.skipSpaces (i.argument ++ ';' :: rest) = i.operandText.toList ++ ';' :: rest := by
  obtain ⟨c, tail, htail, hspace, -⟩ := head_operandText hread rest
  have hskip : Listing.skipSpaces (i.operandText.toList ++ ';' :: rest) =
      i.operandText.toList ++ ';' :: rest := by
    rw [htail]
    exact Listing.skipSpaces_cons hspace
  unfold argument
  split
  · rename_i hempty
    rw [String.isEmpty_iff] at hempty
    rw [hempty]
    exact Listing.skipSpaces_cons rfl
  · exact hskip

theorem delimited_argument (i : Instruction) (rest : List Char) :
    Listing.Delimited (i.argument ++ ';' :: rest) := by
  unfold argument
  split
  · exact ⟨';', by decide, rest, rfl⟩
  · exact ⟨' ', by decide, _, rfl⟩

/-- **An instruction is read back up to its semicolon.** -/
theorem instruction?_append (hread : ∀ o ∈ i.operands, o.Readable) (rest : List Char) :
    Listing.instruction? (i.mnemonic.name.toList ++ (i.argument ++ ';' :: rest)) =
      some ((i.mnemonic.name, i.operands.map Operand.named), rest) := by
  have hname := Listing.name?_append i.mnemonic.isLabelName_name
    ((i.delimited_argument rest).ended.stops (by decide))
  have hsemicolon : Listing.skipSpaces (';' :: rest) = ';' :: rest := Listing.skipSpaces_cons rfl
  simp [Listing.instruction?, hname, skipSpaces_argument hread, operands_append hread, hsemicolon]

/-- It is not mistaken for a label. -/
theorem label?_append (hread : ∀ o ∈ i.operands, o.Readable) (rest : List Char) :
    Listing.label? (i.mnemonic.name.toList ++ (i.argument ++ ';' :: rest)) = none := by
  have hname := Listing.name?_append i.mnemonic.isLabelName_name
    ((i.delimited_argument rest).ended.stops (by decide))
  obtain ⟨c, tail, htail, -, hcolon⟩ := head_operandText hread rest
  simp [Listing.label?, hname, skipSpaces_argument hread, htail, hcolon]

end Instruction

/-! ### Whole lines -/

/-- A comment behind its instruction. -/
def Statement.remark (s : Statement) : List Char :=
  match s.comment with
  | none => []
  | some comment => ' ' :: ' ' :: '/' :: '/' :: ' ' :: comment.toList

theorem Statement.toList_text (s : Statement) : s.text.toList =
    s.instruction.mnemonic.name.toList ++ (s.instruction.argument ++ ';' :: s.remark) := by
  rw [text, remark, Instruction.argument]
  by_cases hempty : s.instruction.operandText.isEmpty = true
  · rw [if_pos hempty, if_pos hempty]
    cases s.comment <;> simp
  · rw [if_neg hempty, if_neg hempty]
    cases s.comment <;> simp

/-- What a reader finds of the comment: not the blanks at its ends. -/
def Statement.trimmed (s : Statement) : Option String :=
  s.comment.map fun text => String.ofList (Text.trim text.toList)

/-- Behind the semicolon there is the comment or nothing. -/
theorem Statement.skipSpaces_remark (s : Statement) :
    (Listing.skipSpaces (Text.trimEnd s.remark) = [] ∧ s.trimmed = none) ∨
      ∃ cs, Listing.skipSpaces (Text.trimEnd s.remark) = '/' :: '/' :: cs ∧
        s.trimmed = some (String.ofList (Text.trim cs)) := by
  cases hcomment : s.comment with
  | none => exact .inl ⟨by rw [remark, hcomment]; rfl, by rw [trimmed, hcomment]; rfl⟩
  | some text =>
    have htrim := Text.trimEnd_append (c := '/') rfl [' ', ' ', '/'] (' ' :: text.toList)
    rw [List.cons_append, List.cons_append, List.cons_append, List.nil_append] at htrim
    have hblank : Text.trim (Text.trimEnd (' ' :: text.toList)) = Text.trim text.toList := by
      rw [Text.trim_trimEnd, Text.trim_cons (by decide)]
    refine .inr ⟨Text.trimEnd (' ' :: text.toList), ?_, ?_⟩
    · rw [remark, hcomment]
      dsimp only
      rw [htrim]
      rfl
    · rw [trimmed, hcomment, hblank]
      rfl

namespace Listing

theorem ofChars?_label {name : String} (hname : Program.isLabelName name = true) :
    Line.ofChars? (Text.trimEnd (name ++ ":").toList) = some ⟨some name, none, none⟩ := by
  have htrim : Text.trimEnd (name ++ ":").toList = name.toList ++ [':'] := by
    rw [String.toList_append]
    exact Text.trimEnd_append rfl name.toList []
  have hlabel : label? (name.toList ++ [':']) = some (name, []) := by
    rw [label?, name?_append hname (stops_cons rfl)]
    rfl
  rw [htrim, Line.ofChars?, skipSpaces_name hname, optionally, hlabel]
  rfl

theorem ofChars?_statement {s : Statement} (hread : ∀ o ∈ s.instruction.operands, o.Readable)
    (indent : Nat) :
    Line.ofChars? (Text.trimEnd (String.ofList (List.replicate indent ' ') ++ s.text).toList) =
      some ⟨none, some (s.instruction.mnemonic.name, s.instruction.operands.map Operand.named),
        s.trimmed⟩ := by
  have htrim : Text.trimEnd (String.ofList (List.replicate indent ' ') ++ s.text).toList =
      List.replicate indent ' ' ++ (s.instruction.mnemonic.name.toList ++
        (s.instruction.argument ++ ';' :: Text.trimEnd s.remark)) := by
    have := Text.trimEnd_append (c := ';') rfl (List.replicate indent ' ' ++
      (s.instruction.mnemonic.name.toList ++ s.instruction.argument)) s.remark
    simpa [s.toList_text] using this
  -- Behind the indentation there is no label, then the instruction, then perhaps a comment.
  have hname := s.instruction.mnemonic.isLabelName_name
  rw [htrim, Line.ofChars?, skipSpaces_replicate_append, skipSpaces_name hname]
  simp only [optionally, Instruction.label?_append hread, skipSpaces_name hname,
    Instruction.instruction?_append hread]
  rcases s.skipSpaces_remark with ⟨hremark, hnone⟩ | ⟨cs, hremark, hsome⟩
  · rw [hremark, hnone]
  · rw [hremark, hsome]
    rfl

/-! ### No line is broken -/

theorem unbroken_led {leads : List String} {os : List Operand} (h : List.Forall₂ Led leads os)
    (hread : ∀ o ∈ os, o.Readable) : Text.Unbroken (led leads os) := by
  induction h with
  | nil => exact Text.unbroken_nil
  | cons hlead htail ih =>
    rename_i lead o leads os
    have hunbroken : Text.Unbroken lead.toList := by
      rcases hlead with hlead | hlead <;> rw [hlead]
      · exact Text.unbroken_cons.2 ⟨by decide, Text.unbroken_cons.2 ⟨by decide, unbroken_mark o⟩⟩
      · exact Text.unbroken_cons.2 ⟨by decide, unbroken_mark o⟩
    rw [led_cons, Text.unbroken_append, Text.unbroken_append]
    exact ⟨⟨hunbroken, unbroken_text (hread o (by simp))⟩,
      ih fun o' ho' => hread o' (by simp [ho'])⟩

theorem unbroken_operandText {i : Instruction} (hread : ∀ o ∈ i.operands, o.Readable) :
    Text.Unbroken i.operandText.toList := by
  cases hos : i.operands with
  | nil =>
    rw [Instruction.operandText_of_operands_eq_nil hos]
    exact Text.unbroken_nil
  | cons o os =>
    obtain ⟨leads, hled, htext⟩ := Instruction.operandText_of_operands_eq_cons hos
    rw [htext, Text.unbroken_append, Text.unbroken_append]
    exact ⟨⟨unbroken_mark o, unbroken_text (hread o (by simp [hos]))⟩,
      unbroken_led hled fun o' ho' => hread o' (by simp [hos, ho'])⟩

theorem unbroken_statement {s : Statement} (hread : ∀ o ∈ s.instruction.operands, o.Readable)
    (hcomment : ∀ text ∈ s.comment, Text.Unbroken text.toList) : Text.Unbroken s.text.toList := by
  have hargument : Text.Unbroken s.instruction.argument := by
    unfold Instruction.argument
    split
    · exact Text.unbroken_nil
    · exact Text.unbroken_cons.2 ⟨by decide, unbroken_operandText hread⟩
  have hremark : Text.Unbroken s.remark := by
    unfold Statement.remark
    split
    · exact Text.unbroken_nil
    · rename_i comment hsome
      have := Text.unbroken_append.2
        ⟨(by decide : Text.Unbroken [' ', ' ', '/', '/', ' ']), hcomment comment hsome⟩
      exact this
  rw [s.toList_text, Text.unbroken_append, Text.unbroken_append, Text.unbroken_cons]
  exact ⟨unbroken_name s.instruction.mnemonic.isLabelName_name, hargument, by decide, hremark⟩

end Listing
end PulseProcessor
