import Mathlib.Control.Monad.Basic
import PulseProcessor.Proofs.Listing.Grammar
import PulseProcessor.Proofs.Listing.RoundTrip

/-! # Listings are a normal form

What has been read from a listing is read from its own listing again, statement by statement and
label by label (`Program.ofListing_normal`).  It need not encode: numbers may be too large for their
fields and jumps may have no target.

A program that has been read has comments without blanks at their ends, operators given by symbols
that exist, and numbers that the reader has taken and will take again (`Program.Normal`).  Printing
and reading does nothing to such a program, because all it ever does is to bring a program into that
form (`Program.ofListing_listing_named`).
-/

namespace PulseProcessor

open Isa (Operator Mnemonic)

/-! ### What is read -/

/-- **The operand is as it is read.** -/
structure Operand.Normal (o : Operand) : Prop where
  readable : o.Readable
  named : o.named = o

/-- **The statement is as it is read.** -/
structure Statement.Normal (s : Statement) : Prop where
  readable : ∀ o ∈ s.instruction.operands, o.Readable
  named : s.named = s

/-- **The program is as it is read.** -/
structure Program.Normal (p : Program) : Prop extends p.Tidy where
  statement : ∀ s ∈ p.statements.toList, s.Normal

/-! ### Tokens -/

namespace Listing

variable {cs rest : List Char}

theorem Token.normal (t : Token) : t.operand.Normal := by
  cases t with
  | register => exact ⟨trivial, rfl⟩
  | label name => exact ⟨name.proper, rfl⟩
  | number negative n hn =>
    have hlt : n.value < Text.signedBound := hn
    refine ⟨?_, rfl⟩
    cases negative with
    | false => exact hlt
    | true => simpa [operand, Operand.Readable] using hlt
  | operator op => exact ⟨⟨op, by rw [OperatorRef.resolve, Operator.ofSymbol?_symbol]⟩, rfl⟩

/-- **What is read as an operand can be written and read again, and is the same then.** -/
theorem normal_of_operand? {o : Operand} (h : operand? cs = some (o, rest)) : o.Normal := by
  obtain ⟨t, rfl, -⟩ := exists_token h
  exact t.normal

/-! ### Lines -/

theorem normal_of_mem_moreOperands (cs : List Char) : ∀ o ∈ (moreOperands cs).1, o.Normal := by
  fun_induction moreOperands cs with
  | case1 => simp
  | case2 => simp
  | case3 cs next hs o rest ho hlt os rest' hmore ih =>
    rw [hmore] at ih
    exact List.forall_mem_cons.2 ⟨normal_of_operand? ho, ih⟩

theorem normal_of_mem_operands (cs : List Char) : ∀ o ∈ (operands cs).1, o.Normal := by
  unfold operands
  split
  · simp
  · rename_i ho
    exact List.forall_mem_cons.2 ⟨normal_of_operand? ho, normal_of_mem_moreOperands _⟩

theorem normal_of_instruction? {name : String} {os : List Operand}
    (h : instruction? cs = some ((name, os), rest)) : ∀ o ∈ os, o.Normal := by
  obtain ⟨⟨name', rest'⟩, -, h⟩ := Option.bind_eq_some_iff.1 h
  dsimp only at h
  split at h
  · obtain ⟨hparts, -⟩ := Prod.mk.inj (Option.some.inj h)
    obtain ⟨-, rfl⟩ := Prod.mk.inj hparts
    exact normal_of_mem_operands _
  · contradiction

/-- **The parts of the line are as they are read.** -/
structure Line.Normal (l : Line) : Prop where
  operands : ∀ name os, l.instruction = some (name, os) → ∀ o ∈ os, o.Normal
  comment : ∀ text ∈ l.comment, Text.trim text.toList = text.toList

theorem exists_of_optionally {α : Type} {read : List Char → Option (α × List Char)} {a : α}
    (h : (optionally read cs).1 = some a) : ∃ rest, read cs = some (a, rest) := by
  unfold optionally at h
  split at h
  · rename_i a' rest hread
    obtain rfl := Option.some.inj h
    exact ⟨rest, hread⟩
  · contradiction

theorem normal_of_ofChars? {l : Line} (h : Line.ofChars? cs = some l) : l.Normal := by
  have hoperands (cs : List Char) (name : String) (os : List Operand)
      (hread : (optionally instruction? cs).1 = some (name, os)) : ∀ o ∈ os, o.Normal := by
    obtain ⟨rest, hinstruction⟩ := exists_of_optionally hread
    exact normal_of_instruction? hinstruction
  simp only [Line.ofChars?] at h
  split at h
  · obtain rfl := Option.some.inj h
    exact ⟨hoperands _, by simp⟩
  · obtain rfl := Option.some.inj h
    exact ⟨hoperands _, by simp [Text.trim_trim]⟩
  · contradiction

end Listing

/-! ### Programs -/

theorem Text.isBlank_unbroken (c : Char) :
    isBlank (if c == '\n' || c == '\r' then ' ' else c) = isBlank c := by
  split
  · rename_i hbreak
    simp only [Bool.or_eq_true, beq_iff_eq] at hbreak
    rcases hbreak with rfl | rfl <;> rfl
  · rfl

namespace Instruction

variable {i : Instruction} {name : String} {os : List Operand}

theorem named_of_ofNamedParts (h : ofNamedParts name os = .ok i) (hos : ∀ o ∈ os, o.Normal) :
    i.operands = os ∧ i.named = i := by
  unfold ofNamedParts at h
  split at h
  · rename_i m hm
    obtain ⟨rfl, rfl⟩ := parts_of_ofParts h
    have hsame : i.operands.map Operand.named = i.operands := by
      rw [List.map_congr_left fun o ho => (hos o ho).named, List.map_id']
    have hnamed := i.ofNamedParts_named
    rw [hsame, ofNamedParts, Mnemonic.ofName?_name] at hnamed
    exact ⟨rfl, (Except.ok.inj (h.symm.trans hnamed)).symm⟩
  · contradiction

end Instruction

namespace Program

variable {p q : Program}

/-- The comment that is taken up is as it is read, too. -/
theorem trim_oneLine {text : String} (h : Text.trim text.toList = text.toList) :
    Text.trim (oneLine text).toList = (oneLine text).toList := by
  rw [oneLine, String.toList_map, Text.trim_map Text.isBlank_unbroken, h]

theorem normal_statement {i : Instruction} {comment : Option String}
    (hread : ∀ o ∈ i.operands, o.Readable) (hnamed : i.named = i)
    (hcomment : ∀ text ∈ comment, Text.trim text.toList = text.toList) :
    (⟨i, (comment.filter (! ·.isEmpty)).map oneLine⟩ : Statement).Normal := by
  refine ⟨hread, ?_⟩
  cases hkept : comment.filter (! ·.isEmpty) with
  | none => simp [Statement.named, Statement.trimmed, hnamed]
  | some text =>
    obtain ⟨hsome, hne⟩ := Option.filter_eq_some_iff.1 hkept
    have htrim := trim_oneLine (hcomment text hsome)
    have hne' : (oneLine text).isEmpty = false := by
      rw [← Bool.not_eq_true, String.isEmpty_iff, ← String.toList_inj, oneLine, String.toList_map]
      simpa using hne
    simp [Statement.named, Statement.trimmed, hnamed, htrim, hne']

/-- What a line does to a program: it may define a label, and it may append an instruction. -/
theorem exists_of_addLine {l : Listing.Line} (h : p.addLine l = .ok q) :
    ∃ p', (p' = p ∨ ∃ name, p.defineLabel name = .ok p') ∧
      (q = p' ∨ ∃ name os i, l.instruction = some (name, os) ∧
        Instruction.ofNamedParts name os = .ok i ∧
        q = p'.append i (l.comment.filter (! ·.isEmpty))) := by
  have hcode (p' : Program) (h : addLine p' { l with label := none } = .ok q) :
      q = p' ∨ ∃ name os i, l.instruction = some (name, os) ∧
        Instruction.ofNamedParts name os = .ok i ∧
        q = p'.append i (l.comment.filter (! ·.isEmpty)) := by
    cases hparts : l.instruction with
    | none =>
      simp only [addLine, hparts] at h
      cases h
      exact .inl rfl
    | some parts =>
      simp only [addLine, hparts, pure_bind] at h
      obtain ⟨i, hi, hq⟩ := bind_eq_ok_iff.1 h
      cases hq
      exact .inr ⟨_, _, i, rfl, hi, rfl⟩
  cases hlabel : l.label with
  | none =>
    exact ⟨p, .inl rfl, hcode p (by simpa only [addLine, hlabel] using h)⟩
  | some name =>
    simp only [addLine, hlabel] at h
    obtain ⟨p', hp', hq⟩ := bind_eq_ok_iff.1 h
    exact ⟨p', .inr ⟨name, hp'⟩, hcode p' hq⟩

namespace Normal

theorem empty : Normal {} where
  toTidy := .empty
  statement := by simp

theorem defineLabel {name : String} (hp : p.Normal) (h : p.defineLabel name = .ok q) :
    q.Normal where
  toTidy := hp.toTidy.defineLabel h
  statement := by
    obtain ⟨-, -, rfl⟩ := defineLabel_eq_ok_iff.1 h
    exact hp.statement

theorem append {i : Instruction} {comment : Option String} (hp : p.Normal)
    (hs : (⟨i, comment.map oneLine⟩ : Statement).Normal) : (p.append i comment).Normal where
  toTidy := hp.toTidy.append i comment
  statement s hmem := by
    simp only [Program.append, Array.toList_push, List.mem_append, List.mem_singleton] at hmem
    rcases hmem with hmem | rfl
    · exact hp.statement s hmem
    · exact hs

/-- **A line keeps the program as it is read.** -/
theorem addLine {l : Listing.Line} (hp : p.Normal) (hl : l.Normal) (h : p.addLine l = .ok q) :
    q.Normal := by
  obtain ⟨p', hlabel, hcode⟩ := exists_of_addLine h
  have hp' : p'.Normal := by
    rcases hlabel with rfl | ⟨name, hname⟩
    · exact hp
    · exact hp.defineLabel hname
  rcases hcode with rfl | ⟨name, os, i, hparts, hi, rfl⟩
  · exact hp'
  · have hos := hl.operands name os hparts
    obtain ⟨rfl, hnamed⟩ := Instruction.named_of_ofNamedParts hi hos
    exact hp'.append (normal_statement (fun o ho => (hos o ho).readable) hnamed hl.comment)

/-- **So do all lines.** -/
theorem addLines {number : Nat} {lines : List (List Char)} (hp : p.Normal)
    (h : p.addLines number lines = .ok q) : q.Normal := by
  induction lines generalizing p number with
  | nil =>
    cases h
    exact hp
  | cons cs lines ih =>
    rw [Program.addLines] at h
    split at h
    · contradiction
    · rename_i l hline
      split at h
      · contradiction
      · rename_i p' hadd
        exact ih (hp.addLine (Listing.normal_of_ofChars? hline) hadd) h

end Normal

/-! ### Printing and reading -/

/-- **What a listing gives back of a program**: every statement with operators as symbols and the
comment trimmed, and the same labels. -/
theorem ofListing_listing_named (hp : p.Tidy)
    (hread : ∀ s ∈ p.statements.toList, ∀ o ∈ s.instruction.operands, o.Readable) :
    ofListing p.listing = .ok { p with statements := p.statements.map Statement.named } := by
  have hunbroken : ∀ line ∈ "// Program" :: p.linesFrom 0 p.statements.toList,
      Text.Unbroken line.toList :=
    List.forall_mem_cons.2 ⟨by decide, unbroken_linesFrom hp hread hp.comment⟩
  have htitle : Listing.Line.ofChars? (Text.trimEnd "// Program".toList) =
      some ⟨none, none, some "Program"⟩ := by decide
  obtain ⟨q, hq, hend⟩ := addLines_linesFrom (q := {}) hp hread List.drop_zero (Nat.zero_le _)
    ⟨rfl, (labelsBelow_zero p).symm⟩ 2
  have hstatements : q.statements = p.statements.map Statement.named := by
    rw [← Array.toList_inj, hend.statements, List.take_of_length_le (by simp [size]),
      Array.toList_map]
  have hlabels : q.labels = p.labels := by
    rw [← Array.toList_inj, hend.labels, labelsBelow_size_succ hp]
  rw [ofListing, toList_listing, Text.splitLines_flatMap hunbroken, List.map_cons,
    addLines_cons htitle rfl, hq, ← hstatements, ← hlabels]

theorem Normal.ofListing_eq_self (hp : p.Normal) : ofListing p.listing = .ok p := by
  have hsame : p.statements.map Statement.named = p.statements := by
    rw [← Array.toList_inj, Array.toList_map,
      List.map_congr_left fun s hs => (hp.statement s hs).named, List.map_id']
  rw [ofListing_listing_named hp.toTidy fun s hs => (hp.statement s hs).readable, hsame]

/-- **Listings are a normal form.**  The listing of a program that has been read is accepted and
gives back the same statements with their comments and the same labels at the same places.  So it is
its own listing. -/
theorem ofListing_normal {text : String} (h : ofListing text = .ok p) :
    ofListing p.listing = .ok p ∧ (ofListing p.listing).map listing = .ok p.listing := by
  have hp : p.Normal := Normal.empty.addLines h
  have hsame := hp.ofListing_eq_self
  exact ⟨hsame, by rw [hsame]; rfl⟩

/-- A text with a label that shares its line and one that does not, with a number in hexadecimal and
comments to be trimmed.  One of its jumps has no target. -/
theorem ofListing_normal_unresolved :
    let text := "  GAIN:regwi 1,$2 0x1F;\t//  5 µV // twice \u00a0\r\n" ++
      "END :\n\tcondj 1, $2 >= $0 @NOWHERE; //\n"
    let p : Program := {
      statements := #[⟨.regwi 1 2 31, some "5 µV // twice"⟩,
        ⟨.condj 1 2 (.symbol ">=") 0 "NOWHERE", none⟩]
      labels := #[("GAIN", 0), ("END", 1)] }
    ofListing text = .ok p ∧ p.encode = .error (.unresolvedLabel "NOWHERE" 1 .condj) ∧
      p.listing ≠ text ∧ ofListing p.listing = .ok p ∧
      (ofListing p.listing).map listing = .ok p.listing := by
  intro text p
  have htext : ofListing text = .ok p := by decide +kernel
  exact ⟨htext, by decide +kernel, by decide +kernel, ofListing_normal htext⟩

end Program
end PulseProcessor
