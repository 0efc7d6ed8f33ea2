import PulseProcessor.Proofs.Text.Numeral
import PulseProcessor.Proofs.WordListing.Annotation

/-! # Which texts are word listings

`Says` is the form of a line once its comment and the blanks at its ends are cut off: nothing, or a
mark and a numeral in the base of the mark for a number that a word can hold.  A text in which every
line is of this form is read, as the words that its lines say, in their order.

Not only such texts are read.  Behind the mark a plus sign may stand in front of the digits
(`parse_signed`).  But for these signs the form is exact: a text is read if and only if all its
lines are of that form when one sign behind each mark is passed over (`parse_exact`).
-/

namespace PulseProcessor
namespace WordListing

open Text (IsNumeral splitLines withoutPlus)

variable {cs digits : List Char} {f : Format} {w : Word} {word? : Option Word}

/-- **What a line says**: nothing, or a word, by the mark of a base and the word's number in digits
of the base.  How many digits there are is left open, but not that the number is one of 64 bits. -/
inductive Says : List Char → Option Word → Prop
  | nothing : Says [] none
  | word (f : Format) {digits : List Char} {w : Word} (h : IsNumeral f.base digits w.toNat) :
      Says ('0' :: f.mark :: digits) (some w)

/-- A line without the plus sign behind its mark, if there is one. -/
def unsigned : List Char → List Char
  | '0' :: mark :: digits => '0' :: mark :: withoutPlus digits
  | cs => cs

/-- The lines of a text, without their comments and the blanks at their ends. -/
def contents (text : String) : List (List Char) := (splitLines text.toList).map content

/-- **A text is read as what lines say**: it is read if and only if all of them say something, and
then as the words that are said, in the order of the lines. -/
structure ReadAs (text : String) (lines : List (List Char)) : Prop where
  accepted : (∃ words, parse text = .ok words) ↔ ∀ line ∈ lines, ∃ word?, Says line word?
  words : ∀ words, parse text = .ok words ↔
    ∃ said, List.Forall₂ Says lines said ∧ said.reduceOption = words

/-! ### Words -/

theorem Format.mark_inj {f f' : Format} (h : f.mark = f'.mark) : f = f' := by
  cases f <;> cases f' <;> simp_all [mark]

/-- A word has a mark. -/
theorem exists_mark_of_parseWord (h : parseWord cs = .ok w) :
    ∃ (f : Format) (digits : List Char), cs = '0' :: f.mark :: digits := by
  unfold parseWord at h
  split at h
  · exact ⟨.hex, _, rfl⟩
  · exact ⟨.bin, _, rfl⟩
  · contradiction

theorem says_marked_iff : Says ('0' :: f.mark :: digits) (some w) ↔
    IsNumeral f.base digits w.toNat := by
  constructor
  · intro h
    generalize hmark : f.mark = mark at h
    cases h with
    | word f' h =>
      obtain rfl := Format.mark_inj hmark
      exact h
  · exact .word f

/-- **Behind a mark, what is read is a numeral for a word**, with or without a sign. -/
theorem parseWord_marked_eq_ok_iff :
    parseWord ('0' :: f.mark :: digits) = .ok w ↔
      IsNumeral f.base (withoutPlus digits) w.toNat := by
  have hread (n : Nat) : Text.readUnsigned f.base UInt64.size digits = .ok n ↔
      IsNumeral f.base (withoutPlus digits) n ∧ n < UInt64.size :=
    Text.readUnsigned_eq_ok_iff f.base_pos f.base_le (by decide)
  rw [f.parseWord_marked, map_eq_ok_iff]
  constructor
  · rintro ⟨n, hn, rfl⟩
    obtain ⟨hnumeral, hlt⟩ := (hread n).1 (mapError_eq_ok_iff.1 hn)
    rwa [UInt64.toNat_ofNat_of_lt' hlt]
  · intro h
    exact ⟨w.toNat, mapError_eq_ok_iff.2 ((hread _).2 ⟨h, w.toNat_lt⟩), UInt64.ofNat_toNat⟩

/-- Passing over the sign does not touch the mark. -/
theorem exists_of_unsigned_eq {mark : Char} (h : unsigned cs = '0' :: mark :: digits) :
    ∃ rest, cs = '0' :: mark :: rest ∧ withoutPlus rest = digits := by
  unfold unsigned at h
  split at h
  · cases h
    exact ⟨_, rfl, rfl⟩
  · rename_i hunmarked
    exact absurd h (hunmarked mark digits)

/-- **A word is read exactly if it is said**, the sign being passed over. -/
theorem parseWord_eq_ok_iff : parseWord cs = .ok w ↔ Says (unsigned cs) (some w) := by
  constructor
  · intro h
    obtain ⟨f, digits, rfl⟩ := exists_mark_of_parseWord h
    exact says_marked_iff.2 (parseWord_marked_eq_ok_iff.1 h)
  · intro h
    generalize hsaid : unsigned cs = said at h
    cases h with
    | word f h =>
      obtain ⟨rest, rfl, rfl⟩ := exists_of_unsigned_eq hsaid
      exact parseWord_marked_eq_ok_iff.2 h

/-! ### Lines and texts -/

theorem unsigned_eq_nil_iff : unsigned cs = [] ↔ cs = [] := by
  unfold unsigned
  split <;> simp

theorem says_nil_iff : Says [] word? ↔ word? = none := by
  constructor
  · rintro ⟨⟩
    rfl
  · rintro rfl
    exact .nothing

/-- Whoever says nothing has an empty line. -/
theorem not_says_none (h : cs ≠ []) : ¬ Says cs none := by
  rintro ⟨⟩
  contradiction

/-- **A line is read as what it says.** -/
theorem parseLine_eq_ok_iff : parseLine cs = .ok word? ↔ Says (unsigned (content cs)) word? := by
  unfold parseLine
  split
  · rename_i hempty
    rw [hempty, unsigned_eq_nil_iff.2 rfl, says_nil_iff, Except.ok.injEq, eq_comm]
  · rename_i hcontent
    rw [map_eq_ok_iff]
    cases word? with
    | none =>
      refine iff_of_false (by simp) (not_says_none ?_)
      exact fun h => hcontent (unsigned_eq_nil_iff.1 h)
    | some w => simp [parseWord_eq_ok_iff]

/-- **Lines are read as what they say, one after the other.** -/
theorem parseLines_eq_ok_iff {lines : List (List Char)} {words : List Word} (number : Nat) :
    parseLines number lines = .ok words ↔ ∃ said,
      List.Forall₂ Says ((lines.map content).map unsigned) said ∧ said.reduceOption = words := by
  induction lines generalizing number words with
  | nil => simp [parseLines, eq_comm]
  | cons line lines ih =>
    constructor
    · intro h
      rw [parseLines] at h
      split at h
      · contradiction
      · rename_i word? hline
        obtain ⟨rest, hrest, rfl⟩ := map_eq_ok_iff.1 h
        obtain ⟨said, hsaid, rfl⟩ := (ih (number + 1)).1 hrest
        exact ⟨word? :: said, .cons (parseLine_eq_ok_iff.1 hline) hsaid, reduceOption_cons ..⟩
    · rintro ⟨_, _ | @⟨_, word?, _, said, hline, hsaid⟩, rfl⟩
      rw [parseLines, parseLine_eq_ok_iff.2 hline, (ih (number + 1)).2 ⟨said, hsaid, rfl⟩,
        reduceOption_cons]
      rfl

theorem readAs_unsigned (text : String) : ReadAs text ((contents text).map unsigned) where
  accepted := by
    rw [Text.forall_exists_iff]
    constructor
    · rintro ⟨words, hwords⟩
      obtain ⟨said, hsaid, -⟩ := (parseLines_eq_ok_iff 1).1 hwords
      exact ⟨said, hsaid⟩
    · rintro ⟨said, hsaid⟩
      exact ⟨said.reduceOption, (parseLines_eq_ok_iff 1).2 ⟨said, hsaid, rfl⟩⟩
  words _ := parseLines_eq_ok_iff 1

/-- **A text is read exactly if each of its lines says nothing or a word**, when a plus sign behind
the mark is passed over; and then it is read as these words, in the order of the lines.  Where no
line has such a sign, nothing is passed over. -/
theorem parse_exact (text : String) : ReadAs text ((contents text).map unsigned) ∧
    ((∀ line ∈ contents text, unsigned line = line) → ReadAs text (contents text)) := by
  refine ⟨readAs_unsigned text, fun hplain => ?_⟩
  have hsame : (contents text).map unsigned = contents text :=
    (List.map_congr_left hplain).trans (List.map_id _)
  exact hsame ▸ readAs_unsigned text

/-- Both marks, capitals, a comment, a carriage return and an empty line. -/
theorem parse_exact_mixed :
    let text := "0x1F // 0x+1\r\n\n\t0b101"
    (∀ line ∈ contents text, unsigned line = line) ∧ ReadAs text (contents text) ∧
      parse text = .ok [31, 5] := by
  intro text
  have hplain : ∀ line ∈ contents text, unsigned line = line := by decide +kernel
  exact ⟨hplain, (parse_exact text).2 hplain, by decide +kernel⟩

/-- **A word with a sign is read**, although its line says nothing that a line may say. -/
theorem parse_signed : parse "0x+10" = .ok [16] ∧ ¬ ReadAs "0x+10" (contents "0x+10") := by
  have hparse : parse "0x+10" = .ok [16] := by decide +kernel
  refine ⟨hparse, fun h => ?_⟩
  have hline : "0x+10".toList ∈ contents "0x+10" := by decide +kernel
  obtain ⟨word?, hsays⟩ := h.accepted.1 ⟨_, hparse⟩ _ hline
  have hdigits : ∃ w : Word, IsNumeral Format.hex.base ['+', '1', '0'] w.toNat := by
    cases word? with
    | none => exact absurd hsays (not_says_none (by decide))
    | some w => exact ⟨w, says_marked_iff.1 hsays⟩
  obtain ⟨w, -, ds, hds, -⟩ := hdigits
  cases hds with
  | cons hplus => exact Text.not_isDigit_plus (by decide) hplus

end WordListing
end PulseProcessor
