import PulseProcessor.Listing.Reader
import PulseProcessor.Proofs.Assembly.Construction
import PulseProcessor.Proofs.Listing.Line
import PulseProcessor.Proofs.Listing.Recall

/-! # Listings read back

A program that can be encoded has a listing that assembles to a program with as many instructions,
the same labels and the same words (`Program.ofListing_listing`).

Reading goes line by line.  When the reader comes to the lines of place `pc`, it holds the first
`pc` instructions and the labels that mark places below `pc` (`Program.ReadUpTo`).  As labels come
in the order of the places they mark, those that mark `pc` itself are the next ones of the table:
they are defined in the same order, and at the same place, as in the program that was printed.
-/

namespace PulseProcessor

/-- **The statement that a listing gives back.**  Operators are symbols.  The comment has no blanks
at its ends, and is gone if there was nothing else. -/
def Statement.named (s : Statement) : Statement where
  instruction := s.instruction.named
  comment := s.trimmed.filter (! ·.isEmpty)

namespace Program

variable {p q : Program} {pc number : Nat} {ws : List Word}

/-! ### What a listing gives back -/

theorem oneLine_eq_self {text : String} (h : Text.Unbroken text.toList) : oneLine text = text := by
  have hsame : ∀ c ∈ text.toList, (if c == '\n' || c == '\r' then ' ' else c) = c := fun c hc => by
    simpa [Text.IsBreak] using fun hbreak => absurd hbreak (h c hc)
  rw [oneLine, ← String.toList_inj, String.toList_map, List.map_congr_left hsame, List.map_id']

/-- The comment that a listing gives back is still one line. -/
theorem oneLine_comment_named {s : Statement}
    (hcomment : ∀ text ∈ s.comment, Text.Unbroken text.toList) :
    s.named.comment.map oneLine = s.named.comment := by
  cases hnamed : s.named.comment with
  | none => rfl
  | some text =>
    obtain ⟨htrimmed, -⟩ := Option.filter_eq_some_iff.1 hnamed
    obtain ⟨original, horiginal, rfl⟩ := Option.map_eq_some_iff.1 htrimmed
    have hunbroken := (hcomment original horiginal).trim
    rw [Option.map_some, oneLine_eq_self (by rwa [String.toList_ofList])]

/-! ### The text as lines -/

theorem toList_listing (p : Program) : p.listing.toList =
    ("// Program" :: p.linesFrom 0 p.statements.toList).flatMap fun line =>
      line.toList ++ ['\n'] :=
  Text.toList_join_ended _

theorem unbroken_labelLines (hp : p.Tidy) :
    ∀ line ∈ p.labelLines pc, Text.Unbroken line.toList := by
  intro line hline
  obtain ⟨l, hl, rfl⟩ := List.mem_map.1 hline
  rw [String.toList_append, Text.unbroken_append]
  exact ⟨Listing.unbroken_name (hp.name l (List.mem_filter.1 hl).1), by decide⟩

theorem unbroken_linesFrom (hp : p.Tidy) {ss : List Statement}
    (hread : ∀ s ∈ ss, ∀ o ∈ s.instruction.operands, o.Readable)
    (hcomment : ∀ s ∈ ss, ∀ text ∈ s.comment, Text.Unbroken text.toList) :
    ∀ line ∈ p.linesFrom pc ss, Text.Unbroken line.toList := by
  induction ss generalizing pc with
  | nil => exact unbroken_labelLines hp
  | cons s ss ih =>
    intro line hline
    rcases List.mem_append.1 hline with hline | hline
    · exact unbroken_labelLines hp line hline
    · rcases List.mem_cons.1 hline with rfl | hline
      · rw [String.toList_append, String.toList_ofList, Text.unbroken_append]
        refine ⟨fun c hc => ?_,
          Listing.unbroken_statement (hread s (by simp)) (hcomment s (by simp))⟩
        rw [List.eq_of_mem_replicate hc]
        decide
      · exact ih (fun s' hs' => hread s' (by simp [hs']))
          (fun s' hs' => hcomment s' (by simp [hs'])) line hline

/-! ### The labels of one place -/

/-- The labels that mark places below a given one. -/
def labelsBelow (p : Program) (pc : Nat) : List (String × Nat) :=
  p.labels.toList.filter (·.2 < pc)

/-- The labels that mark a place. -/
def labelsAt (p : Program) (pc : Nat) : List (String × Nat) :=
  p.labels.toList.filter (·.2 == pc)

/-- In an ordered table the labels of a place follow those of all places below. -/
theorem filter_lt_succ {ls : List (String × Nat)} (h : ls.Pairwise (·.2 ≤ ·.2)) (pc : Nat) :
    ls.filter (·.2 < pc + 1) = ls.filter (·.2 < pc) ++ ls.filter (·.2 == pc) := by
  induction h with
  | nil => rfl
  | cons hl hls ih =>
    rename_i l ls
    by_cases hlt : l.2 < pc
    · have hne : l.2 ≠ pc := by omega
      have hsucc : l.2 < pc + 1 := by omega
      simp only [List.filter_cons, hlt, hne, hsucc, ih, decide_true, if_true, beq_iff_eq, if_false,
        List.cons_append]
    · -- No label behind this one marks a lower place.
      have hbelow : ls.filter (·.2 < pc) = [] := by
        refine List.filter_eq_nil_iff.2 fun l' hl' => ?_
        have := hl l' hl'
        simp only [decide_eq_true_eq]
        omega
      rw [hbelow, List.nil_append] at ih
      by_cases heq : l.2 = pc
      · have hsucc : l.2 < pc + 1 := by omega
        have hplace : (l.2 == pc) = true := beq_iff_eq.2 heq
        simp only [List.filter_cons, hlt, hsucc, hplace, hbelow, ih, decide_true, decide_false,
          if_true, Bool.false_eq_true, if_false, List.nil_append]
      · have hsucc : ¬ l.2 < pc + 1 := by omega
        simp only [List.filter_cons, hlt, hsucc, hbelow, ih, decide_false, beq_iff_eq, heq,
          Bool.false_eq_true, if_false, List.nil_append]

theorem labelsBelow_succ (hp : p.Tidy) (pc : Nat) :
    p.labelsBelow (pc + 1) = p.labelsBelow pc ++ p.labelsAt pc :=
  filter_lt_succ hp.ordered pc

theorem labelsBelow_zero (p : Program) : p.labelsBelow 0 = [] := by
  simp [labelsBelow]

/-- No label marks a place behind the end of the program. -/
theorem labelsBelow_size_succ (hp : p.Tidy) : p.labelsBelow (p.size + 1) = p.labels.toList := by
  rw [labelsBelow, List.filter_eq_self]
  intro l hl
  simpa using Nat.lt_succ_of_le (hp.within l hl)

/-! ### Reading line by line -/

theorem addLines_cons {cs : List Char} {rest : List (List Char)} {l : Listing.Line}
    (hline : Listing.Line.ofChars? (Text.trimEnd cs) = some l) (h : p.addLine l = .ok q) :
    p.addLines number (cs :: rest) = q.addLines (number + 1) rest := by
  rw [addLines, hline]
  dsimp only
  rw [h]

/-- Lines of new labels that are to mark the next place are taken up one after the other. -/
theorem addLines_labels {ls : List (String × Nat)} {rest : List (List Char)}
    (hname : ∀ l ∈ ls, isLabelName l.1 = true) (hplace : ∀ l ∈ ls, l.2 = p.size)
    (hdistinct : ((p.labels.toList ++ ls).map (·.1)).Nodup) :
    p.addLines number ((ls.map (·.1 ++ ":")).map String.toList ++ rest) =
      addLines { p with labels := p.labels ++ ls.toArray } (number + ls.length) rest := by
  induction ls generalizing p number with
  | nil => simp
  | cons l ls ih =>
    obtain ⟨name, place⟩ := l
    have hproper : isLabelName name = true := hname (name, place) (by simp)
    obtain rfl : place = p.size := hplace (name, place) (by simp)
    -- The name is new: in the list of names it comes behind those of before.
    have hnew : p.labelPc? name = none := by
      refine labelPc?_eq_none_iff.2 fun l hl heq => ?_
      rw [List.map_append, List.nodup_append] at hdistinct
      exact hdistinct.2.2 l.1 (List.mem_map_of_mem hl) name (by simp) heq
    have hadd : p.addLine ⟨some name, none, none⟩ =
        .ok { p with labels := p.labels.push (name, p.size) } := by
      have hdefine := defineLabel_eq_ok_iff.2 ⟨hproper, hnew, rfl⟩
      simp [addLine, hdefine, bind, Except.bind, pure, Except.pure]
    rw [List.map_cons, List.map_cons, List.cons_append,
      addLines_cons (Listing.ofChars?_label hproper) hadd, ih]
    · have hnumber : number + 1 + ls.length = number + (ls.length + 1) := by omega
      simp [hnumber]
    · exact fun l hl => hname l (by simp [hl])
    · exact fun l hl => hplace l (by simp [hl])
    · simpa using hdistinct

/-- **What has been read of a program when its lines of place `pc` are next.** -/
structure ReadUpTo (p : Program) (pc : Nat) (q : Program) : Prop where
  statements : q.statements.toList = (p.statements.toList.take pc).map Statement.named
  labels : q.labels.toList = p.labelsBelow pc

theorem ReadUpTo.code (h : p.ReadUpTo pc q) : q.statements.toList.map (·.instruction) =
    (p.statements.toList.take pc).map (·.instruction.named) := by
  rw [h.statements, List.map_map]
  rfl

theorem ReadUpTo.size_eq (h : p.ReadUpTo pc q) (hpc : pc ≤ p.size) : q.size = pc := by
  have hlen := congrArg List.length h.code
  simp only [List.length_map, List.length_take, Array.length_toList] at hlen
  rw [size] at *
  omega

/-- The lines of the labels of a place. -/
theorem addLines_labelLines (hp : p.Tidy) (h : p.ReadUpTo pc q) (hpc : pc ≤ p.size)
    (number : Nat) (rest : List (List Char)) :
    q.addLines number ((p.labelLines pc).map String.toList ++ rest) =
      addLines { q with labels := q.labels ++ (p.labelsAt pc).toArray }
        (number + (p.labelsAt pc).length) rest := by
  refine addLines_labels ?_ ?_ ?_
  · exact fun l hl => hp.name l (List.mem_filter.1 hl).1
  · intro l hl
    rw [h.size_eq hpc]
    simpa using (List.mem_filter.1 hl).2
  · -- The names are distinct because they are all from one table.
    have hsublist : (p.labelsBelow pc ++ p.labelsAt pc).Sublist p.labels.toList := by
      rw [← labelsBelow_succ hp]
      exact List.filter_sublist
    rw [h.labels]
    exact hp.distinct.sublist (hsublist.map _)

theorem ReadUpTo.labels_append (hp : p.Tidy) (h : p.ReadUpTo pc q) :
    (q.labels ++ (p.labelsAt pc).toArray).toList = p.labelsBelow (pc + 1) := by
  rw [Array.toList_append, h.labels, labelsBelow_succ hp]

/-- The line of an instruction adds what a listing gives back of it. -/
theorem addLine_statement (q : Program) {s : Statement}
    (hcomment : ∀ text ∈ s.comment, Text.Unbroken text.toList) :
    q.addLine ⟨none, some (s.instruction.mnemonic.name,
      s.instruction.operands.map Operand.named), s.trimmed⟩ =
        .ok { q with statements := q.statements.push s.named } := by
  have hkept : q.append s.instruction.named s.named.comment =
      { q with statements := q.statements.push s.named } := by
    rw [append, oneLine_comment_named hcomment]
    rfl
  rw [← hkept]
  simp [addLine, Instruction.ofNamedParts_named, bind, Except.bind, pure, Except.pure,
    Statement.named]

/-- **The lines of one place lead to the next place.** -/
theorem addLines_place (hp : p.Tidy) {s : Statement} (hs : p.statements[pc]? = some s)
    (hread : ∀ o ∈ s.instruction.operands, o.Readable) (h : p.ReadUpTo pc q) (number : Nat)
    (rest : List Statement) : ∃ q' number', p.ReadUpTo (pc + 1) q' ∧
      q.addLines number ((p.linesFrom pc (s :: rest)).map String.toList) =
        q'.addLines number' ((p.linesFrom (pc + 1) rest).map String.toList) := by
  obtain ⟨hlt, -⟩ := Array.getElem?_eq_some_iff.1 hs
  have hs' : p.statements.toList[pc]? = some s := by simpa using hs
  have hline := Listing.ofChars?_statement hread p.indent
  let labelled : Program := { q with labels := q.labels ++ (p.labelsAt pc).toArray }
  have hadd := addLine_statement labelled (s := s) (hp.comment s (List.mem_of_getElem? hs'))
  refine ⟨{ labelled with statements := labelled.statements.push s.named },
    number + (p.labelsAt pc).length + 1, ⟨?_, h.labels_append hp⟩, ?_⟩
  · simp [labelled, h.statements, List.take_add_one, hs]
  · rw [linesFrom, List.map_append, addLines_labelLines hp h (Nat.le_of_lt hlt), List.map_cons,
      addLines_cons hline hadd]

/-- **Reading goes on to the end of the listing.** -/
theorem addLines_linesFrom (hp : p.Tidy)
    (hread : ∀ s ∈ p.statements.toList, ∀ o ∈ s.instruction.operands, o.Readable)
    {ss : List Statement} (hss : p.statements.toList.drop pc = ss) (hpc : pc ≤ p.size)
    (h : p.ReadUpTo pc q) (number : Nat) :
    ∃ q', q.addLines number ((p.linesFrom pc ss).map String.toList) = .ok q' ∧
      p.ReadUpTo (p.size + 1) q' := by
  induction ss generalizing pc q number with
  | nil =>
    -- Only the labels at the end are left.
    obtain rfl : pc = p.size := by
      have hle := List.drop_eq_nil_iff.1 hss
      exact Nat.le_antisymm hpc hle
    refine ⟨{ q with labels := q.labels ++ (p.labelsAt p.size).toArray }, ?_, ?_,
      h.labels_append hp⟩
    · rw [linesFrom, ← List.append_nil (List.map _ _), addLines_labelLines hp h hpc]
      rfl
    · have hall : p.statements.toList.take p.size = p.statements.toList.take (p.size + 1) := by
        simp [size]
      rw [← hall]
      exact h.statements
  | cons s ss ih =>
    have hs : p.statements.toList[pc]? = some s := by
      rw [← List.head?_drop, hss]
      rfl
    have hpc' : pc + 1 ≤ p.size := (List.getElem?_eq_some_iff.1 hs).1
    have hss' : p.statements.toList.drop (pc + 1) = ss := by
      rw [← List.drop_drop, hss]
      rfl
    obtain ⟨q', number', hnext, hlines⟩ := addLines_place hp (by simpa using hs)
      (hread s (List.mem_of_getElem? hs)) h number ss
    obtain ⟨q'', hq'', hend⟩ := ih hss' hpc' hnext number'
    exact ⟨q'', hlines.trans hq'', hend⟩

/-- **A listing gives back its program.** -/
theorem ofListing_listing (hp : Builds {} p) (hws : p.encode = .ok ws) :
    ∃ q, ofListing p.listing = .ok q ∧ q.size = p.size ∧ q.labels = p.labels ∧
      q.encode = .ok ws := by
  have htidy : p.Tidy := Tidy.of_grows hp.grows .empty
  have hread := readable_of_encode htidy hws
  have hsplit : Text.splitLines p.listing.toList =
      ("// Program" :: p.linesFrom 0 p.statements.toList).map String.toList := by
    rw [toList_listing]
    refine Text.splitLines_flatMap fun line hline => ?_
    rcases List.mem_cons.1 hline with rfl | hline
    · decide
    · exact unbroken_linesFrom htidy hread htidy.comment line hline
  -- The title is a line with nothing but a comment.
  have htitle : addLines {} 1 ("// Program".toList ::
      (p.linesFrom 0 p.statements.toList).map String.toList) =
        addLines {} 2 ((p.linesFrom 0 p.statements.toList).map String.toList) :=
    addLines_cons (l := ⟨none, none, some "Program"⟩) (by decide) rfl
  obtain ⟨q, hq, hend⟩ := addLines_linesFrom (q := {}) htidy hread List.drop_zero (Nat.zero_le _)
    ⟨rfl, (labelsBelow_zero p).symm⟩ 2
  have hlabels : q.labels = p.labels := by
    rw [← Array.toList_inj, hend.labels, labelsBelow_size_succ htidy]
  have hcode : q.statements.toList.map (·.instruction) =
      p.statements.toList.map (·.instruction.named) := by
    rw [hend.code, List.take_of_length_le (by simp [size])]
  refine ⟨q, ?_, ?_, hlabels, ?_⟩
  · rw [ofListing, hsplit, List.map_cons, htitle, hq]
  · simpa [size] using congrArg List.length hcode
  · rw [encode_named hlabels hcode, hws]

/-! ### A program with everything in it -/

/-- The body of a loop that stores its swept register. -/
def storeBody (inner : SweepGenerator) : Except AssemblyError SweepGenerator :=
  .ok { inner with program := inner.program.append (.memwi 1 15 9) }

/-- A program with a constant too large for one instruction, a comment of two lines, a label that
is refused, an operator given by its symbol, a loop, and a label behind the last instruction. -/
def annotated : Program :=
  let labelled := kept {} (defineLabel {} "start_2")
  let loaded := labelled.loadConstant 0 3 0x7fffffff (some "gain; // a: b\r\n50 µV")
  let refused := kept loaded (loaded.defineLabel "start_2")
  let reduced := refused.append (.mathi 0 3 3 (.symbol "-") (-1)) (some "")
  let branched := reduced.append (.condj 0 3 (.known .gt) 0 "end_")
  let swept := kept branched ((Id.run (SweepGenerator.sweep ⟨branched, []⟩
    ⟨"LOOP", 3, ⟨1, 14⟩, [⟨⟨1, 15⟩, 0, 5, 8⟩]⟩ fun inner => ExceptT.mk (storeBody inner)).run).map
      (·.program))
  kept swept (swept.defineLabel "end_")

theorem builds_annotated : Builds {} annotated := by
  unfold annotated
  extract_lets labelled loaded refused reduced branched swept
  have hlabelled : Builds {} labelled := .defineLabel (.done {}) "start_2"
  have hloaded : Builds {} loaded := .loadConstant hlabelled ..
  have hrefused : Builds {} refused := .defineLabel hloaded "start_2"
  have hbranched : Builds {} branched := .append (.append hrefused ..) ..
  have hswept : Builds {} swept := by
    refine .sweep hbranched [] _ storeBody fun inner inner' h => ?_
    cases h
    exact .append (.done _) ..
  exact .defineLabel hswept "end_"

theorem ofListing_listing_annotated :
    let ws : List Word := [0x190006001fffffff, 0x1601063000000002, 0x1202063000000003,
      0x120246307fffffff, 0x310000300000000b, 0x19201e0000000000, 0x19201c0000000002,
      0x1820000780000009, 0x12221ef000000005, 0x16201ef0000000ff, 0x30221ce000000007]
    Builds {} annotated ∧ annotated.encode = .ok ws ∧
      annotated.labels = #[("start_2", 0), ("LOOP", 7), ("end_", 11)] ∧
      ∃ q, ofListing annotated.listing = .ok q ∧ q.size = annotated.size ∧
        q.labels = annotated.labels ∧ q.encode = .ok ws := by
  intro ws
  have hencode : annotated.encode = .ok ws := by decide +kernel
  exact ⟨builds_annotated, hencode, by decide +kernel, ofListing_listing builds_annotated hencode⟩

end Program
end PulseProcessor
