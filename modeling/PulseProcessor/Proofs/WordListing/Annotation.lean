import Mathlib.Algebra.Group.Nat.Defs
import Mathlib.Data.List.Forall2
import Mathlib.Data.List.ReduceOption
import PulseProcessor.Proofs.Assembly.Packing
import PulseProcessor.Proofs.Text.Digits
import PulseProcessor.Proofs.Text.Lines
import PulseProcessor.WordListing.Format
import PulseProcessor.WordListing.Reader

/-! # Word listings read back

A word is written with all its digits, so it is read as itself, and nothing in it looks like a blank
or like the beginning of a comment (`Format.visible_word`).  Blanks and comments around it are cut
off again, whatever the comment says.

So it makes no difference how many lines without a word are put between the lines of a listing, and
what is put behind its words: the words that are read are the words that have been written
(`parse_annotated`).
-/

namespace PulseProcessor
namespace WordListing

open Text (isBlank beforeComment trim splitLines)

/-! ### Words -/

namespace Format

/-- The second character of a word, which says what its digits are. -/
def mark : Format → Char
  | hex => 'x'
  | bin => 'b'

def base : Format → Nat
  | hex => 16
  | bin => 2

/-- How many digits a word has. -/
def count : Format → Nat
  | hex => 16
  | bin => 64

variable (f : Format) (w : Word)

theorem toList_word :
    (f.word w).toList = '0' :: f.mark :: Text.fixedDigits f.base f.count w.toNat := by
  cases f with
  | hex => simp [word, Text.hex, mark, base, count]
  | bin => simp [word, Text.bin, mark, base, count]

theorem parseWord_marked (cs : List Char) : parseWord ('0' :: f.mark :: cs) =
    ((Text.readUnsigned f.base UInt64.size cs).mapError .number).map UInt64.ofNat := by
  cases f <;> rfl

end Format

/-- The character is no blank, and no comment begins with it. -/
def Visible (c : Char) : Prop := isBlank c = false ∧ c ≠ '/'

instance : DecidablePred Visible := fun c =>
  inferInstanceAs (Decidable (isBlank c = false ∧ c ≠ '/'))

/-- Digits are visible, and they are no signs. -/
theorem visible_digitChar : ∀ d < 16, Visible (Nat.digitChar d) ∧ Nat.digitChar d ≠ '+' := by
  decide

namespace Format

variable (f : Format) (w : Word)

theorem base_pos : 0 < f.base := by cases f <;> decide

theorem base_le : f.base ≤ 16 := by cases f <;> decide

/-- The digits are enough for every word. -/
theorem base_pow_count : f.base ^ f.count = UInt64.size := by cases f <;> rfl

theorem visible_word : ∀ c ∈ (f.word w).toList, Visible c := by
  rw [toList_word]
  intro c hc
  rcases List.mem_cons.1 hc with rfl | hc
  · decide
  rcases List.mem_cons.1 hc with rfl | hc
  · cases f <;> decide
  · obtain ⟨d, hd, rfl⟩ := Text.exists_of_mem_fixedDigits f.base_pos hc
    exact (visible_digitChar d (Nat.lt_of_lt_of_le hd f.base_le)).1

/-- **A word is read as itself.** -/
theorem parseWord_word : parseWord (f.word w).toList = .ok w := by
  have hlt : w.toNat < UInt64.size := w.toNat_lt
  have hcount : w.toNat < f.base ^ f.count := by rwa [f.base_pow_count]
  have hread := Text.readDigits_fixedDigits f.base_pos f.base_le hcount hlt
  rw [toList_word, parseWord_marked]
  cases hdigits : Text.fixedDigits f.base f.count w.toNat with
  | nil =>
    have hlength := Text.length_fixedDigits f.base f.count w.toNat
    rw [hdigits] at hlength
    cases f <;> simp [count] at hlength
  | cons c cs =>
    obtain ⟨d, hd, rfl⟩ := Text.exists_of_mem_fixedDigits (c := c) f.base_pos
      (by rw [hdigits]; exact List.mem_cons_self ..)
    have hplus := (visible_digitChar d (Nat.lt_of_lt_of_le hd f.base_le)).2
    rw [Text.readUnsigned_cons hplus, ← hdigits, hread]
    simp [Except.mapError, Except.map]

end Format

/-! ### Lines -/

/-- Blanks within a line. -/
def Gap (s : String) : Prop := ∀ c ∈ s.toList, isBlank c = true ∧ c ≠ '\n'

instance : DecidablePred Gap := fun s =>
  decidable_of_iff (s.toList.all fun c => isBlank c && c != '\n') (by simp [Gap])

/-- **What may be added to a listing**: blanks, and a comment behind them.  A comment says whatever
it likes, as long as it does not end the line. -/
inductive Remark : String → Prop where
  | blank {gap : String} (hgap : Gap gap) : Remark gap
  | comment {gap text : String} (hgap : Gap gap) (htext : '\n' ∉ text.toList) :
    Remark (gap ++ "//" ++ text)

variable {line remark indent : String} {word? : Option Word}

theorem Gap.blank (h : Gap indent) : ∀ c ∈ indent.toList, isBlank c = true := fun c hc => (h c hc).1

theorem Gap.not_mem_feed (h : Gap indent) : '\n' ∉ indent.toList := fun hc => (h _ hc).2 rfl

theorem Gap.not_mem_slash (h : Gap indent) : '/' ∉ indent.toList := fun hc =>
  absurd (h.blank _ hc) (by decide)

theorem Remark.not_mem_feed (h : Remark remark) : '\n' ∉ remark.toList := by
  cases h with
  | blank hgap => exact hgap.not_mem_feed
  | comment hgap htext => simp [hgap.not_mem_feed, htext]

/-- In front of its comment, a remark is blank. -/
theorem Remark.blank_beforeComment (h : Remark remark) :
    ∀ c ∈ beforeComment remark.toList, isBlank c = true := by
  cases h with
  | blank hgap =>
    have hall := Text.beforeComment_append hgap.not_mem_slash []
    rw [List.append_nil] at hall
    rw [hall]
    simpa [beforeComment] using hgap.blank
  | @comment gap text hgap _ =>
    have hsplit : (gap ++ "//" ++ text).toList = gap.toList ++ '/' :: '/' :: text.toList := by simp
    rw [hsplit, Text.beforeComment_append hgap.not_mem_slash]
    simpa [beforeComment] using hgap.blank

theorem Remark.content_eq (h : Remark remark) : content remark.toList = [] := by
  have htrim := Text.trim_append_of_blank h.blank_beforeComment []
  rwa [List.nil_append] at htrim

/-- What is added to a word is cut off again. -/
theorem content_word (hindent : Gap indent) (h : Remark remark) (f : Format) (w : Word) :
    content (indent ++ f.word w ++ remark).toList = (f.word w).toList := by
  have hslash : '/' ∉ (indent ++ f.word w).toList := by
    rw [String.toList_append, List.mem_append]
    exact fun hc => hc.elim hindent.not_mem_slash fun hc => (f.visible_word w _ hc).2 rfl
  rw [content, String.toList_append, Text.beforeComment_append hslash,
    Text.trim_append_of_blank h.blank_beforeComment, String.toList_append,
    Text.trim_append_of_blank_left hindent.blank,
    Text.trim_of_visible fun c hc => (f.visible_word w c hc).1]

/-- A carriage return at the end of a line makes no difference. -/
theorem content_return (cs : List Char) : content (cs ++ ['\r']) = content cs := by
  rcases Text.beforeComment_concat (c := '\r') (by decide) cs with h | h
  · rw [content, h, Text.trim_append_of_blank (List.forall_mem_singleton.2 (by decide))]
    rfl
  · rw [content, h]
    rfl

theorem parseLine_congr {cs cs' : List Char} (h : content cs = content cs') :
    parseLine cs = parseLine cs' := by
  rw [parseLine, parseLine, h]

/-- **The line is read, with or without a word in it.** -/
structure Reads (line : String) (word? : Option Word) : Prop where
  not_mem_feed : '\n' ∉ line.toList
  parsed : parseLine line.toList = .ok word?

theorem reads_remark (h : Remark remark) : Reads remark none where
  not_mem_feed := h.not_mem_feed
  parsed := by rw [parseLine, h.content_eq]

theorem reads_word (hindent : Gap indent) (h : Remark remark) (f : Format) (w : Word) :
    Reads (indent ++ f.word w ++ remark) (some w) where
  not_mem_feed := by
    rw [String.toList_append, String.toList_append, List.mem_append, List.mem_append]
    rintro ((hc | hc) | hc)
    · exact hindent.not_mem_feed hc
    · exact absurd (f.visible_word w _ hc).1 (by decide)
    · exact h.not_mem_feed hc
  parsed := by
    have hparse := f.parseWord_word w
    rw [parseLine, content_word hindent h]
    rw [f.toList_word] at hparse ⊢
    exact congrArg (Except.map some) hparse

/-! ### Texts -/

theorem Reads.parseLines_feed (h : Reads line word?) (number : Nat) (rest : List Char) :
    parseLines number (splitLines (line.toList ++ '\n' :: rest)) =
      (parseLines (number + 1) (splitLines rest)).map (word?.toList ++ ·) := by
  obtain ⟨cs, hsplit, hends⟩ := Text.splitLines_feed h.not_mem_feed rest
  have hcontent : content cs = content line.toList := by
    rcases hends with rfl | hends
    · rfl
    · rw [← hends, content_return]
  rw [hsplit, parseLines, parseLine_congr hcontent, h.parsed]

theorem Reads.parseLines_last (h : Reads line word?) (number : Nat) :
    parseLines number (splitLines line.toList) = .ok word?.toList := by
  by_cases hempty : line.toList = []
  · have hparsed := h.parsed
    rw [hempty] at hparsed
    cases hparsed
    rw [hempty]
    rfl
  · rw [Text.splitLines_of_not_mem h.not_mem_feed hempty, parseLines, h.parsed]
    simp [parseLines, Except.map]

variable {lines lines' : List String} {words words' : List Word} {read : List (Option Word)}

theorem reduceOption_cons (word? : Option Word) (read : List (Option Word)) :
    (word? :: read).reduceOption = word?.toList ++ read.reduceOption := by
  cases word? <;> rfl

/-- **A text is read line by line**, if every line is ended. -/
theorem parseLines_ended (h : List.Forall₂ Reads lines read) (number : Nat) :
    parseLines number (splitLines (lines.flatMap fun line => line.toList ++ ['\n'])) =
      .ok read.reduceOption := by
  induction h generalizing number with
  | nil => rfl
  | cons hline _ ih =>
    rw [List.flatMap_cons, List.append_assoc, List.singleton_append, hline.parseLines_feed, ih,
      reduceOption_cons]
    rfl

/-- The same if the last line has no end. -/
theorem parseLines_unended (h : List.Forall₂ Reads lines read) (number : Nat) :
    parseLines number (splitLines (['\n'].intercalate (lines.map String.toList))) =
      .ok read.reduceOption := by
  induction h generalizing number with
  | nil => rfl
  | @cons line word? lines read hline hlines ih =>
    cases hlines with
    | nil =>
      rw [List.reduceOption_singleton]
      simpa using hline.parseLines_last number
    | cons _ _ =>
      rw [List.map_cons, List.intercalate_cons_of_ne_nil (by simp), List.append_assoc,
        List.singleton_append, hline.parseLines_feed, ih, reduceOption_cons word?]
      rfl

/-! ### Annotated listings -/

/-- The lines of a text. -/
def linesOf (text : String) : List String := (splitLines text.toList).map String.ofList

/-- **Words and the lines they are listed in.**  Words are written in either format, by themselves
or as a program, and what has been written can be put together. -/
inductive Listed : List Word → List String → Prop where
  | words (f : Format) (words : List Word) : Listed words (linesOf (render f words))
  | program {p : Program} {f : Format} {words : List Word} {text : String}
    (hwords : p.encode = .ok words) (htext : p.wordText f = .ok text) : Listed words (linesOf text)
  | append {words words' : List Word} {lines lines' : List String} (h : Listed words lines)
    (h' : Listed words' lines') : Listed (words ++ words') (lines ++ lines')

/-- **The second lines are the first ones with remarks**, in lines of their own and around the
words. -/
inductive Annotates : List String → List String → Prop where
  | nil : Annotates [] []
  | insert {remark : String} {lines lines' : List String} (h : Remark remark)
    (rest : Annotates lines lines') : Annotates lines (remark :: lines')
  | keep {indent line remark : String} {lines lines' : List String} (hindent : Gap indent)
    (h : Remark remark) (rest : Annotates lines lines') :
    Annotates (line :: lines) ((indent ++ line ++ remark) :: lines')

/-- The line is a word as it is written. -/
def Writes (w : Word) (line : String) : Prop := ∃ f : Format, line = f.word w

/-- As a line, a written word is not broken. -/
theorem Format.unbroken_word (f : Format) (w : Word) : Text.Unbroken (f.word w).toList := by
  intro c hc hbreak
  have hvisible := (f.visible_word w c hc).1
  rcases hbreak with rfl | rfl <;> contradiction

theorem ofList_toList (lines : List String) :
    (lines.map String.toList).map String.ofList = lines := by
  simp

theorem linesOf_render (f : Format) (words : List Word) :
    linesOf (render f words) = words.map f.word := by
  have hrender : render f words = String.join ((words.map f.word).map (· ++ "\n")) := by
    rw [List.map_map]
    rfl
  rw [linesOf, hrender, Text.toList_join_ended, Text.splitLines_flatMap, ofList_toList]
  exact List.forall_mem_map.2 fun w _ => f.unbroken_word w

theorem linesOf_intercalate (f : Format) (words : List Word) :
    linesOf ("\n".intercalate (words.map f.word)) = words.map f.word := by
  have hfeed : "\n".toList = ['\n'] := rfl
  rw [linesOf, String.toList_intercalate, hfeed, Text.splitLines_intercalate, ofList_toList]
  · exact List.forall_mem_map.2 fun w _ => f.unbroken_word w
  · exact List.forall_mem_map.2 fun w _ => by simp [f.toList_word]

theorem Listed.writes (h : Listed words lines) : List.Forall₂ Writes words lines := by
  have hmap (f : Format) (words : List Word) : List.Forall₂ Writes words (words.map f.word) :=
    List.forall₂_map_right_iff.2 (List.forall₂_same.2 fun w _ => ⟨f, rfl⟩)
  induction h with
  | words f words =>
    rw [linesOf_render]
    exact hmap f words
  | @program p f words text hwords htext =>
    obtain ⟨words', hwords', rfl⟩ := map_eq_ok_iff.1 htext
    obtain rfl : words = words' := Except.ok.inj (hwords.symm.trans hwords')
    rw [linesOf_intercalate]
    exact hmap f words
  | append _ _ ih ih' => exact List.rel_append ih ih'

theorem Annotates.exists_reads (h : Annotates lines lines')
    (hwords : List.Forall₂ Writes words lines) :
    ∃ read, List.Forall₂ Reads lines' read ∧ read.reduceOption = words := by
  induction h generalizing words with
  | nil =>
    cases hwords
    exact ⟨[], .nil, rfl⟩
  | insert h _ ih =>
    obtain ⟨read, hread, hsame⟩ := ih hwords
    exact ⟨none :: read, .cons (reads_remark h) hread, hsame⟩
  | keep hindent h _ ih =>
    cases hwords with
    | @cons w _ ws _ hword hwords =>
      obtain ⟨f, rfl⟩ := hword
      obtain ⟨read, hread, rfl⟩ := ih hwords
      exact ⟨some w :: read, .cons (reads_word hindent h f w) hread, rfl⟩

/-- **A listing is read back as the words that are listed**, however it has been annotated, and
whether its last line is ended or not. -/
theorem parse_annotated (hlisted : Listed words lines) (h : Annotates lines lines') :
    parse (String.join (lines'.map (· ++ "\n"))) = .ok words ∧
      parse ("\n".intercalate lines') = .ok words := by
  obtain ⟨read, hread, rfl⟩ := h.exists_reads hlisted.writes
  constructor
  · rw [parse, Text.toList_join_ended]
    exact parseLines_ended hread 1
  · rw [parse, String.toList_intercalate]
    exact parseLines_unended hread 1

/-- Two listings behind one another, with a comment in front that looks like a word. -/
theorem parse_annotated_mixed :
    let lines := linesOf (render .hex [0x10]) ++ linesOf (render .bin [3])
    let lines' := ["  " ++ "//" ++ " 0x12 // 0b1",
      "\t" ++ Format.hex.word 0x10 ++ (" " ++ "//" ++ ""), "", "" ++ Format.bin.word 3 ++ "\r"]
    Listed [0x10, 3] lines ∧ Annotates lines lines' ∧
      parse (String.join (lines'.map (· ++ "\n"))) = .ok [0x10, 3] ∧
      parse ("\n".intercalate lines') = .ok [0x10, 3] := by
  intro lines lines'
  have hlisted : Listed [0x10, 3] lines := .append (.words .hex [0x10]) (.words .bin [3])
  have hannotates : Annotates lines lines' := by
    simp only [lines, linesOf_render, List.map_cons, List.map_nil, List.singleton_append]
    refine .insert (.comment (by decide) (by decide)) ?_
    refine .keep (by decide) (.comment (by decide) (by decide)) ?_
    refine .insert (.blank (by decide)) ?_
    exact .keep (by decide) (.blank (by decide)) .nil
  exact ⟨hlisted, hannotates, parse_annotated hlisted hannotates⟩

end WordListing
end PulseProcessor
