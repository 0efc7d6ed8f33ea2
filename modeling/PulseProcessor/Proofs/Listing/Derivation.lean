import PulseProcessor.Proofs.Listing.Arguments

/-! # Derivations of lines

A line of a listing is blanks, perhaps a label with its colon, perhaps an instruction with its
semicolon, and perhaps a comment.  A `Line.Derivation` is such a line with all its characters, and
`Line.Derivation.Derives` says which text that is.  The reader of lines takes exactly the texts that
have a derivation, answers with the parts of the derivation, and no text has two of them
(`Line.ofChars?_exact`).

At every point the reader takes the first part that it can.  This is never a mistake, because each
part of a derivation ends where it can be seen: names stop, operands have an end behind them, and a
colon or a semicolon decides whether a name was a label or a mnemonic.
-/

namespace PulseProcessor.Listing

variable {cs rest rest' : List Char}

/-! ### Parts that may be missing -/

/-- A part of a line that may be missing, with the blanks behind it. -/
def partText {α : Type} (text : α → List Char) : Option (α × Gap) → List Char
  | none => []
  | some (a, gap) => text a ++ gap.chars

section
variable {α β : Type} {text : α → List Char} {value : α → β}
  {read : List Char → Option (β × List Char)} {x x' : Option (α × Gap)}

/-- The part is read in front of `rest`, if it is there, and nothing is read if it is not. -/
structure Shows (read : List Char → Option (β × List Char)) (text : α → List Char) (value : α → β)
    (x : Option (α × Gap)) (rest : List Char) : Prop where
  present : ∀ a gap, x = some (a, gap) →
    read (text a ++ (gap.chars ++ rest)) = some (value a, gap.chars ++ rest)
  absent : x = none → read rest = none
  stops : Stops isSpace rest

theorem Shows.optionally (h : Shows read text value x rest) :
    (optionally read (partText text x ++ rest)).1 = x.map (fun y => value y.1) ∧
      skipSpaces (optionally read (partText text x ++ rest)).2 = rest := by
  cases x with
  | none =>
    rw [partText, List.nil_append, Listing.optionally, h.absent rfl]
    exact ⟨rfl, skipSpaces_of_stops h.stops⟩
  | some y =>
    obtain ⟨a, gap⟩ := y
    rw [partText, List.append_assoc, Listing.optionally, h.present a gap rfl]
    exact ⟨rfl, skipSpaces_gap gap h.stops⟩

/-- What is read as a part, or not read, is one. -/
theorem exists_part (read : List Char → Option (β × List Char)) (text : α → List Char)
    (value : α → β) (munched : List Char → α → Prop) (hstops : Stops isSpace cs)
    (hread : ∀ v rest, read cs = some (v, rest) →
      ∃ a, value a = v ∧ text a ++ rest = cs ∧ munched rest a) :
    ∃ x : Option (α × Gap), x.map (fun y => value y.1) = (optionally read cs).1 ∧
      partText text x ++ skipSpaces (optionally read cs).2 = cs ∧
      ∀ a gap, x = some (a, gap) → munched (gap.chars ++ skipSpaces (optionally read cs).2) a := by
  unfold optionally
  split
  · rename_i v rest hv
    obtain ⟨a, rfl, htext, hmunched⟩ := hread v rest hv
    obtain ⟨gap, hgap, -⟩ := exists_gap rest
    refine ⟨some (a, gap), rfl, ?_, fun a' gap' heq => ?_⟩
    · rw [partText, List.append_assoc, hgap, htext]
    · obtain ⟨rfl, rfl⟩ := Prod.mk.inj (Option.some.inj heq)
      rw [hgap]
      exact hmunched
  · exact ⟨none, rfl, skipSpaces_of_stops hstops, by simp⟩

/-- A part is told by what is read, together with the blanks behind it. -/
theorem Shows.inj (h : Shows read text value x rest) (h' : Shows read text value x' rest')
    (hinj : ∀ a gap a' gap', x = some (a, gap) → x' = some (a', gap') →
      text a ++ (gap.chars ++ rest) = text a' ++ (gap'.chars ++ rest') →
      a = a' ∧ gap.chars ++ rest = gap'.chars ++ rest')
    (heq : partText text x ++ rest = partText text x' ++ rest') : x = x' ∧ rest = rest' := by
  cases x <;> cases x'
  case none.none => exact ⟨rfl, heq⟩
  case none.some y =>
    obtain ⟨a, gap⟩ := y
    rw [partText, partText, List.nil_append, List.append_assoc] at heq
    have hnone := h.absent rfl
    rw [heq, h'.present a gap rfl] at hnone
    contradiction
  case some.none y =>
    obtain ⟨a, gap⟩ := y
    rw [partText, partText, List.nil_append, List.append_assoc] at heq
    have hnone := h'.absent rfl
    rw [← heq, h.present a gap rfl] at hnone
    contradiction
  case some.some y y' =>
    obtain ⟨a, gap⟩ := y
    obtain ⟨a', gap'⟩ := y'
    rw [partText, partText, List.append_assoc, List.append_assoc] at heq
    obtain ⟨rfl, hrest⟩ := hinj a gap a' gap' rfl rfl heq
    obtain ⟨hgap, rfl⟩ := span_inj gap.blank gap'.blank h.stops h'.stops hrest
    obtain rfl := Gap.ext hgap
    exact ⟨rfl, rfl⟩

end

/-! ### Lines -/

/-- A label as it is written. -/
@[ext] structure Heading where
  name : Name
  gap : Gap

/-- An instruction as it is written. -/
@[ext] structure Command where
  mnemonic : Name
  gap : Gap
  arguments : Option (Arguments × Gap)

namespace Heading

def text (h : Heading) : List Char := h.name.text.toList ++ (h.gap.chars ++ [':'])

def Munched (rest : List Char) (h : Heading) : Prop :=
  Stops isNamePart (h.gap.chars ++ ':' :: rest)

end Heading

namespace Command

def text (c : Command) : List Char :=
  c.mnemonic.text.toList ++ (c.gap.chars ++ (partText Arguments.text c.arguments ++ [';']))

/-- The operands that are written, if any. -/
def operands (c : Command) : List Operand := (c.arguments.map fun x => x.1.operands).getD []

def Munched (rest : List Char) (c : Command) : Prop :=
  Stops isNamePart (c.gap.chars ++ (partText Arguments.text c.arguments ++ ';' :: rest)) ∧
    ∀ a gap, c.arguments = some (a, gap) → a.Munched (gap.chars ++ ';' :: rest)

end Command

/-- **A line as it is written**, with every character that it has. -/
@[ext] structure Line.Derivation where
  indent : Gap
  label : Option (Heading × Gap)
  instruction : Option (Command × Gap)
  /-- What stands behind the two slashes. -/
  comment : Option (List Char)

namespace Line.Derivation

def commentText (d : Derivation) : List Char :=
  match d.comment with
  | none => []
  | some text => '/' :: '/' :: text

/-- The text from the instruction on. -/
def instructionText (d : Derivation) : List Char :=
  partText Command.text d.instruction ++ d.commentText

/-- The text from the label on. -/
def labelText (d : Derivation) : List Char := partText Heading.text d.label ++ d.instructionText

/-- **The text is derived.**  Names, numbers and operators that are words go as far as they can. -/
structure Derives (d : Derivation) (cs : List Char) : Prop where
  text : d.indent.chars ++ d.labelText = cs
  label : ∀ x gap, d.label = some (x, gap) → x.Munched (gap.chars ++ d.instructionText)
  instruction : ∀ x gap, d.instruction = some (x, gap) → x.Munched (gap.chars ++ d.commentText)

/-- The parts of the line.  A comment has no blanks at its ends. -/
def line (d : Derivation) : Line where
  label := d.label.map fun x => x.1.name.text
  instruction := d.instruction.map fun x => (x.1.mnemonic.text, x.1.operands)
  comment := d.comment.map fun text => String.ofList (Text.trim text)

end Line.Derivation

/-! ### Operand lists -/

theorem Arguments.text_append (a : Arguments) (gap : Gap) (rest : List Char) :
    partText text (some (a, gap)) ++ ';' :: rest =
      a.first.text ++ (a.more.text ++ (gap.chars ++ ';' :: rest)) := by
  simp [partText, text]

/-- **An operand list is read up to the semicolon**, even if it is empty. -/
theorem operands_arguments (x : Option (Arguments × Gap)) (rest : List Char) :
    (operands (partText Arguments.text x ++ ';' :: rest)).1 =
        (x.map fun y => y.1.operands).getD [] ∧
      skipSpaces (operands (partText Arguments.text x ++ ';' :: rest)).2 = ';' :: rest := by
  cases x with
  | none =>
    rw [partText, List.nil_append, operands, operand?_eq_none (by decide)]
    exact ⟨rfl, skipSpaces_cons rfl⟩
  | some y =>
    obtain ⟨a, gap⟩ := y
    have hcloses : Closes (gap.chars ++ ';' :: rest) := ⟨gap, rest, rfl⟩
    rw [a.text_append, operands, operand?_token a.first (a.more.ended hcloses)]
    dsimp only
    rw [moreOperands_more a.more hcloses]
    exact ⟨rfl, skipSpaces_gap gap (stops_cons rfl)⟩

/-- It starts with neither a blank nor a colon. -/
theorem head_arguments (x : Option (Arguments × Gap)) (rest : List Char) :
    ∃ c tail, partText Arguments.text x ++ ';' :: rest = c :: tail ∧ isSpace c = false ∧ c ≠ ':' := by
  cases x with
  | none => exact ⟨';', rest, rfl, rfl, by decide⟩
  | some y =>
    obtain ⟨a, gap⟩ := y
    rw [a.text_append]
    obtain ⟨c, hc, tail, htail⟩ := a.first.begins (a.more.ended ⟨gap, rest, rfl⟩)
    simp only [delimiters, List.mem_cons, List.not_mem_nil, or_false, not_or] at hc
    exact ⟨c, tail, htail, by simp [isSpace, hc], hc.2.2.2.1⟩

theorem stops_arguments (x : Option (Arguments × Gap)) (rest : List Char) :
    Stops isSpace (partText Arguments.text x ++ ';' :: rest) := by
  obtain ⟨c, tail, htail, hc, -⟩ := head_arguments x rest
  rw [htail]
  exact stops_cons hc

theorem exists_arguments (hstops : Stops isSpace cs)
    (h : skipSpaces (operands cs).2 = ';' :: rest) : ∃ x : Option (Arguments × Gap),
      (x.map fun y => y.1.operands).getD [] = (operands cs).1 ∧
      partText Arguments.text x ++ ';' :: rest = cs ∧
      ∀ a gap, x = some (a, gap) → a.Munched (gap.chars ++ ';' :: rest) := by
  unfold operands at *
  split at h
  · rw [skipSpaces_of_stops hstops] at h
    subst h
    exact ⟨none, rfl, rfl, by simp⟩
  · rename_i o rest' ho
    obtain ⟨t, rfl, htext, ht⟩ := exists_token ho
    obtain ⟨more, hoperands, hmore, hmunched⟩ := exists_more rest'
    obtain ⟨gap, hgap, -⟩ := exists_gap (moreOperands rest').2
    dsimp only at h
    rw [h] at hgap
    rw [← hgap] at hmore hmunched
    refine ⟨some (⟨t, more⟩, gap), ?_, ?_, fun a gap' heq => ?_⟩
    · exact congrArg (t.operand :: ·) hoperands
    · rw [Arguments.text_append, hmore, htext]
    · obtain ⟨rfl, rfl⟩ := Prod.mk.inj (Option.some.inj heq)
      exact ⟨hmore ▸ ht, hmunched⟩

theorem arguments_inj {x x' : Option (Arguments × Gap)}
    (heq : partText Arguments.text x ++ ';' :: rest = partText Arguments.text x' ++ ';' :: rest') :
    x = x' ∧ rest = rest' := by
  have hmixed {a : Arguments} {gap : Gap} {rest rest' : List Char}
      (h : partText Arguments.text (some (a, gap)) ++ ';' :: rest = ';' :: rest') : False := by
    rw [a.text_append] at h
    obtain ⟨c, hc, tail, htail⟩ := a.first.begins (a.more.ended ⟨gap, rest, rfl⟩)
    obtain rfl : c = ';' := List.head_eq_of_cons_eq (htail.symm.trans h)
    exact hc (by decide)
  cases x <;> cases x'
  case none.none => exact ⟨rfl, List.tail_eq_of_cons_eq heq⟩
  case none.some => exact (hmixed heq.symm).elim
  case some.none => exact (hmixed heq).elim
  case some.some y y' =>
    obtain ⟨⟨first, more⟩, gap⟩ := y
    obtain ⟨⟨first', more'⟩, gap'⟩ := y'
    rw [Arguments.text_append, Arguments.text_append] at heq
    have hcloses : Closes (gap.chars ++ ';' :: rest) := ⟨gap, rest, rfl⟩
    have hcloses' : Closes (gap'.chars ++ ';' :: rest') := ⟨gap', rest', rfl⟩
    -- The first token is read, then the others, and then the blanks.
    have hfirst := operand?_token first (more.ended hcloses)
    rw [heq, operand?_token first' (more'.ended hcloses')] at hfirst
    obtain ⟨-, hbehind⟩ := Prod.mk.inj (Option.some.inj hfirst)
    have hmore := moreOperands_more more hcloses
    rw [← hbehind, moreOperands_more more' hcloses'] at hmore
    obtain ⟨-, hclosing⟩ := Prod.mk.inj hmore
    rw [← hbehind] at heq
    obtain rfl := Token.eq_of_text (List.append_cancel_right heq)
    rw [hclosing] at hbehind
    obtain rfl := More.eq_of_text_append hcloses hbehind
    obtain ⟨hgap, hrest⟩ :=
      span_inj gap.blank gap'.blank (stops_cons rfl) (stops_cons rfl) hclosing.symm
    obtain rfl := Gap.ext hgap
    exact ⟨rfl, List.tail_eq_of_cons_eq hrest⟩

/-! ### Instructions -/

namespace Command

theorem text_append (c : Command) (rest : List Char) : c.text ++ rest =
    c.mnemonic.text.toList ++
      (c.gap.chars ++ (partText Arguments.text c.arguments ++ ';' :: rest)) := by
  simp [text]

/-- **An instruction is read up to its semicolon.** -/
theorem instruction?_text {c : Command} (h : c.Munched rest) :
    instruction? (c.text ++ rest) = some ((c.mnemonic.text, c.operands), rest) := by
  obtain ⟨hoperands, hskip⟩ := operands_arguments c.arguments rest
  rw [text_append, instruction?, name?_append c.mnemonic.proper h.1]
  simp [skipSpaces_gap c.gap (stops_arguments c.arguments rest), hskip, hoperands, operands]

/-- It is not mistaken for a label, because no colon follows the name. -/
theorem label?_text {c : Command} (h : c.Munched rest) : label? (c.text ++ rest) = none := by
  obtain ⟨head, tail, htail, -, hcolon⟩ := head_arguments c.arguments rest
  have hskip := skipSpaces_gap c.gap (stops_arguments c.arguments rest)
  rw [text_append, label?, name?_append c.mnemonic.proper h.1]
  rw [htail] at hskip ⊢
  simp [hskip, hcolon]

theorem stops_text (c : Command) (rest : List Char) : Stops isSpace (c.text ++ rest) := by
  rw [text_append]
  exact stops_name c.mnemonic.proper

theorem inj {c c' : Command} (h : c.Munched rest) (h' : c'.Munched rest')
    (heq : c.text ++ rest = c'.text ++ rest') : c = c' ∧ rest = rest' := by
  rw [text_append, text_append] at heq
  have hread := name?_append c.mnemonic.proper h.1
  rw [heq, name?_append c'.mnemonic.proper h'.1] at hread
  obtain ⟨hname, hbehind⟩ := Prod.mk.inj (Option.some.inj hread)
  obtain ⟨hgap, hlist⟩ := span_inj c'.gap.blank c.gap.blank (stops_arguments _ _)
    (stops_arguments _ _) hbehind
  obtain ⟨harguments, hrest⟩ := arguments_inj hlist
  exact ⟨Command.ext (Name.ext hname.symm) (Gap.ext hgap.symm) harguments.symm, hrest.symm⟩

end Command

theorem exists_command {name : String} {os : List Operand}
    (h : instruction? cs = some ((name, os), rest)) : ∃ c : Command,
      c.mnemonic.text = name ∧ c.operands = os ∧ c.text ++ rest = cs ∧ c.Munched rest := by
  obtain ⟨⟨name', rest₁⟩, hname, h⟩ := Option.bind_eq_some_iff.1 h
  dsimp only at h
  split at h
  · rename_i rest₂ hsemicolon
    obtain ⟨hvalue, rfl⟩ := Prod.mk.inj (Option.some.inj h)
    obtain ⟨rfl, rfl⟩ := Prod.mk.inj hvalue
    obtain ⟨n, rfl, htext, hstops⟩ := name?_eq_some_iff.1 hname
    obtain ⟨gap, hgap, hblank⟩ := exists_gap rest₁
    obtain ⟨x, hoperands, hx, hmunched⟩ := exists_arguments hblank hsemicolon
    rw [← hgap, ← hx] at htext hstops
    exact ⟨⟨n, gap, x⟩, rfl, hoperands, (Command.text_append ..).trans htext, hstops, hmunched⟩
  · contradiction

/-! ### Labels -/

namespace Heading

theorem text_append (x : Heading) (rest : List Char) :
    x.text ++ rest = x.name.text.toList ++ (x.gap.chars ++ ':' :: rest) := by
  simp [text]

theorem munched (x : Heading) (rest : List Char) : x.Munched rest :=
  (x.gap.ended ⟨':', by decide, rest, rfl⟩).stops (by decide)

/-- **A label is read with its colon.** -/
theorem label?_text (x : Heading) (rest : List Char) :
    label? (x.text ++ rest) = some (x.name.text, rest) := by
  have hcolon : skipSpaces (x.gap.chars ++ ':' :: rest) = ':' :: rest :=
    skipSpaces_gap x.gap (stops_cons rfl)
  rw [text_append, label?, name?_append x.name.proper (x.munched rest)]
  simp [hcolon]

theorem inj {x x' : Heading} (heq : x.text ++ rest = x'.text ++ rest') : x = x' ∧ rest = rest' := by
  have hread := x.label?_text rest
  rw [heq, x'.label?_text rest'] at hread
  obtain ⟨hname, rfl⟩ := Prod.mk.inj (Option.some.inj hread)
  rw [text_append, text_append, hname] at heq
  obtain ⟨hgap, -⟩ := span_inj x.gap.blank x'.gap.blank (stops_cons rfl) (stops_cons rfl)
    (List.append_cancel_left heq)
  exact ⟨Heading.ext (Name.ext hname.symm) (Gap.ext hgap), rfl⟩

end Heading

theorem exists_heading {name : String} (h : label? cs = some (name, rest)) :
    ∃ x : Heading, x.name.text = name ∧ x.text ++ rest = cs := by
  obtain ⟨⟨name', rest₁⟩, hname, h⟩ := Option.bind_eq_some_iff.1 h
  dsimp only at h
  split at h
  · rename_i rest₂ hcolon
    obtain ⟨rfl, rfl⟩ := Prod.mk.inj (Option.some.inj h)
    obtain ⟨n, rfl, htext, -⟩ := name?_eq_some_iff.1 hname
    obtain ⟨gap, hgap, -⟩ := exists_gap rest₁
    rw [hcolon] at hgap
    rw [← hgap] at htext
    exact ⟨⟨n, gap⟩, rfl, (Heading.text_append ..).trans htext⟩
  · contradiction

/-! ### Whole lines -/

namespace Line.Derivation

variable {d d' : Derivation} {l : Line}

/-- What does not start like a name is neither a label nor an instruction. -/
theorem commentText_spec (d : Derivation) : Stops isSpace d.commentText ∧
    label? d.commentText = none ∧ instruction? d.commentText = none := by
  unfold commentText
  split
  · exact ⟨stops_nil, rfl, rfl⟩
  · exact ⟨stops_cons rfl, rfl, rfl⟩

theorem Derives.shows_instruction (h : d.Derives cs) :
    Shows instruction? Command.text (fun c => (c.mnemonic.text, c.operands)) d.instruction
      d.commentText where
  present c gap hc := Command.instruction?_text (h.instruction c gap hc)
  absent _ := d.commentText_spec.2.2
  stops := d.commentText_spec.1

theorem Derives.shows_label (h : d.Derives cs) :
    Shows label? Heading.text (fun x => x.name.text) d.label d.instructionText where
  present x gap _ := x.label?_text _
  absent _ := by
    unfold instructionText
    cases hc : d.instruction with
    | none => exact d.commentText_spec.2.1
    | some x =>
      obtain ⟨c, gap⟩ := x
      rw [partText, List.append_assoc]
      exact Command.label?_text (h.instruction c gap hc)
  stops := by
    unfold instructionText
    cases hc : d.instruction with
    | none => exact d.commentText_spec.1
    | some x =>
      rw [partText, List.append_assoc]
      exact x.1.stops_text _

theorem Derives.stops_labelText (h : d.Derives cs) : Stops isSpace d.labelText := by
  unfold labelText
  cases d.label with
  | none => exact h.shows_label.stops
  | some x =>
    rw [partText, List.append_assoc, Heading.text_append]
    exact stops_name x.1.name.proper

/-- **A derived text is read as its parts.** -/
theorem Derives.ofChars? (h : d.Derives cs) : Line.ofChars? cs = some d.line := by
  obtain ⟨hlabel, hinstructionText⟩ := h.shows_label.optionally
  obtain ⟨hinstruction, hcommentText⟩ := h.shows_instruction.optionally
  rw [← h.text, Line.ofChars?, skipSpaces_gap d.indent h.stops_labelText]
  simp only [labelText, hlabel, hinstructionText]
  simp only [instructionText, hinstruction, hcommentText]
  unfold line commentText
  cases d.comment <;> rfl

/-- **What is read has been derived.** -/
theorem exists_derivation (h : Line.ofChars? cs = some l) :
    ∃ d : Derivation, d.Derives cs ∧ d.line = l := by
  obtain ⟨indent, hindent, hstops⟩ := exists_gap cs
  obtain ⟨label, hlabel, hlabelText, hheading⟩ :=
    exists_part label? Heading.text (fun x => x.name.text) Heading.Munched hstops
      fun name rest hread => by
        obtain ⟨x, hname, htext⟩ := exists_heading hread
        exact ⟨x, hname, htext, x.munched rest⟩
  obtain ⟨instruction, hinstruction, hinstructionText, hcommand⟩ :=
    exists_part instruction? Command.text (fun c => (c.mnemonic.text, c.operands)) Command.Munched
      (stops_skipSpaces _) fun v rest hread => by
        obtain ⟨c, hname, hoperands, htext, hmunched⟩ := exists_command hread
        exact ⟨c, Prod.ext hname hoperands, htext, hmunched⟩
  simp only [Line.ofChars?] at h
  generalize skipSpaces (optionally instruction? _).2 = rest at h hinstructionText hcommand
  have hderives {comment : Option (List Char)}
      (hrest : rest = (Derivation.mk indent label instruction comment).commentText) :
      (Derivation.mk indent label instruction comment).Derives cs := by
    rw [hrest] at hinstructionText hcommand
    rw [← hinstructionText] at hlabelText hheading
    exact ⟨(congrArg (indent.chars ++ ·) hlabelText).trans hindent, hheading, hcommand⟩
  -- What is left is nothing or a comment.
  split at h
  · obtain rfl := Option.some.inj h
    refine ⟨⟨indent, label, instruction, none⟩, hderives rfl, ?_⟩
    rw [line, hlabel, hinstruction]
    rfl
  · rename_i comment
    obtain rfl := Option.some.inj h
    refine ⟨⟨indent, label, instruction, some comment⟩, hderives rfl, ?_⟩
    rw [line, hlabel, hinstruction]
    rfl
  · contradiction

/-- **No text has two derivations.** -/
theorem Derives.unique (h : d.Derives cs) (h' : d'.Derives cs) : d = d' := by
  have htext := h.text.trans h'.text.symm
  obtain ⟨hindent, hlabelText⟩ := span_inj d.indent.blank d'.indent.blank h.stops_labelText
    h'.stops_labelText htext
  obtain ⟨hlabel, hinstructionText⟩ := h.shows_label.inj h'.shows_label
    (fun _ _ _ _ _ _ heq => Heading.inj heq) hlabelText
  obtain ⟨hinstruction, hcommentText⟩ := h.shows_instruction.inj h'.shows_instruction
    (fun c gap c' gap' hc hc' heq => Command.inj (h.instruction c gap hc)
      (h'.instruction c' gap' hc') heq) hinstructionText
  have hcomment : d.comment = d'.comment := by
    unfold commentText at hcommentText
    cases hc : d.comment <;> cases hc' : d'.comment <;> simp_all
  exact Derivation.ext (Gap.ext hindent) hlabel hinstruction hcomment

end Line.Derivation

/-- **A line is read exactly if it is derived**, as the parts that its derivation has, and it has
only one. -/
theorem Line.ofChars?_exact (cs : List Char) :
    (∀ l, Line.ofChars? cs = some l ↔ ∃ d : Line.Derivation, d.Derives cs ∧ d.line = l) ∧
      ∀ d d' : Line.Derivation, d.Derives cs → d'.Derives cs → d = d' := by
  refine ⟨fun l => ⟨Derivation.exists_derivation, ?_⟩, fun d d' h h' => h.unique h'⟩
  rintro ⟨d, h, rfl⟩
  exact h.ofChars?

/-- Of two minus signs the one with a blank behind it is an operator. -/
example : Line.ofChars? "x $1 - -0X1F;".toList =
    some ⟨none, some ("x", [.reg 1, .op (.symbol "-"), .int (-31)]), none⟩ := by cbv

end PulseProcessor.Listing
