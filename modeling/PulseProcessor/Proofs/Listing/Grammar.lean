import Mathlib.Algebra.Group.Nat.Defs
import PulseProcessor.Proofs.Listing.Line

/-! # The grammar of operands

An operand is written as a `Token`: a mark with decimal digits or a name, a number with or without
its sign, or an operator.  A token knows its characters and the operand they stand for, and nothing
of how it is read.  Here the reader of operands is compared with it.  Whatever is read is a token,
taken as far as it goes (`exists_token`); and a token is read as what it stands for if behind it
there is an end, that is, a blank, a comma, a colon or a semicolon (`operand?_token`).

Without the end this would not hold: the digits behind `0x` may be too many, and then `0` is read,
and a sign may go on to another one.
-/

namespace PulseProcessor.Listing

open Isa (Operator)

variable {f : Char → Bool} {cs rest rest' xs ys : List Char} {b bound n : Nat}

/-! ### Runs of characters -/

/-- A text falls into a run of characters and the rest in one way only. -/
theorem span_inj (hxs : ∀ c ∈ xs, f c = true) (hys : ∀ c ∈ ys, f c = true) (h : Stops f rest)
    (h' : Stops f rest') (heq : xs ++ rest = ys ++ rest') : xs = ys ∧ rest = rest' := by
  obtain ⟨hxs', hrest⟩ := span_append hxs h
  obtain ⟨hys', hrest'⟩ := span_append hys h'
  rw [heq] at hxs' hrest
  exact ⟨hxs'.symm.trans hys', hrest.symm.trans hrest'⟩

/-- Blanks, as many as there may be. -/
@[ext] structure Gap where
  chars : List Char
  blank : ∀ c ∈ chars, isSpace c = true

/-- A name. -/
@[ext] structure Name where
  text : String
  proper : Program.isLabelName text = true

/-- A digit of a base. -/
abbrev isDigit (b : Nat) (c : Char) : Bool := (Text.digit? b c).isSome

/-- Digits of a base, and at least one. -/
@[ext] structure Digits (b : Nat) where
  chars : List Char
  ne_nil : chars ≠ []
  digit : ∀ c ∈ chars, isDigit b c = true

def Digits.value (ds : Digits b) : Nat := Text.numberOf b 0 ds.chars

/-- **Blanks are skipped up to where they stop.** -/
theorem exists_gap (cs : List Char) :
    ∃ g : Gap, g.chars ++ skipSpaces cs = cs ∧ Stops isSpace (skipSpaces cs) :=
  ⟨⟨cs.takeWhile isSpace, fun _ hc => List.mem_takeWhile_imp hc⟩, List.takeWhile_append_dropWhile,
    stops_skipSpaces cs⟩

theorem skipSpaces_gap (g : Gap) (h : Stops isSpace rest) : skipSpaces (g.chars ++ rest) = rest :=
  (span_append g.blank h).2

/-- **A name is read exactly as far as it goes.** -/
theorem name?_eq_some_iff {name : String} : name? cs = some (name, rest) ↔
    ∃ n : Name, n.text = name ∧ n.text.toList ++ rest = cs ∧ Stops isNamePart rest := by
  constructor
  · intro h
    cases cs with
    | nil => contradiction
    | cons c cs =>
      rw [name?] at h
      split at h
      · rename_i hstart
        obtain ⟨rfl, rfl⟩ := Prod.mk.inj (Option.some.inj h)
        refine ⟨⟨String.ofList (c :: cs.takeWhile isNamePart), ?_⟩, rfl, ?_,
          stops_dropWhile isNamePart cs⟩
        · rw [Program.isLabelName, String.toList_ofList]
          exact Bool.and_eq_true_iff.2 ⟨hstart, List.all_takeWhile⟩
        · rw [String.toList_ofList, List.cons_append, List.takeWhile_append_dropWhile]
      · contradiction
  · rintro ⟨n, rfl, rfl, hstops⟩
    exact name?_append n.proper hstops

/-- **Digits are read exactly as far as they go, if what they stand for is below the bound.** -/
theorem digits?_eq_some_iff (hb : 0 < b) (hbound : 0 < bound) :
    digits? b bound cs = some (n, rest) ↔ ∃ ds : Digits b,
      ds.value = n ∧ ds.chars ++ rest = cs ∧ Stops (isDigit b) rest ∧ n < bound := by
  constructor
  · intro h
    simp only [digits?] at h
    split at h
    · contradiction
    · rename_i hne
      split at h
      · rename_i hread
        obtain ⟨rfl, rfl⟩ := Prod.mk.inj (Option.some.inj h)
        obtain ⟨hdigit, hvalue, hlt⟩ := (Text.readDigits_eq_ok_iff hb hbound).1 hread
        exact ⟨⟨_, by simpa using hne, hdigit⟩, hvalue, List.takeWhile_append_dropWhile,
          stops_dropWhile (isDigit b) cs, hlt⟩
      · contradiction
  · rintro ⟨ds, rfl, rfl, hstops, hlt⟩
    obtain ⟨htake, hdrop⟩ := span_append (f := isDigit b) ds.digit hstops
    have hread := (Text.readDigits_eq_ok_iff hb hbound).2 ⟨ds.digit, rfl, hlt⟩
    simp only [digits?, htake, hdrop, List.isEmpty_iff, ds.ne_nil, if_false, hread]
    rfl

/-! ### Tokens -/

/-- A number without its sign. -/
inductive Numeral where
  | decimal (ds : Digits 10)
  /-- Behind `0x`, or `0X` with a capital. -/
  | hexadecimal (capital : Bool) (ds : Digits 16)

namespace Numeral

def text : Numeral → List Char
  | decimal ds => ds.chars
  | hexadecimal capital ds => '0' :: (if capital then 'X' else 'x') :: ds.chars

def value : Numeral → Nat
  | decimal ds => ds.value
  | hexadecimal _ ds => ds.value

def base : Numeral → Nat
  | decimal _ => 10
  | hexadecimal .. => 16

end Numeral

/-- An operand as it is written. -/
inductive Token where
  | register (ds : Digits 10) (h : ds.value ≤ 255)
  | label (name : Name)
  | number (negative : Bool) (n : Numeral) (h : n.value < 2 ^ 63)
  | operator (op : Operator)

namespace Token

def text : Token → List Char
  | register ds _ => '$' :: ds.chars
  | label name => '@' :: name.text.toList
  | number negative n _ => if negative then '-' :: n.text else n.text
  | operator op => op.symbol.toList

/-- The operand that the token stands for. -/
def operand : Token → Operand
  | register ds _ => .reg (UInt8.ofNat ds.value)
  | label name => .label name.text
  | number negative n _ => .int (if negative then -n.value else n.value)
  | operator op => .op (.symbol op.symbol)

/-- The token is taken as far as it goes: names, numbers and operators that are words have none of
their own characters behind them. -/
def Munched (rest : List Char) : Token → Prop
  | register .. => Stops (isDigit 10) rest
  | label _ => Stops isNamePart rest
  | number _ n _ => Stops (isDigit n.base) rest
  | operator op => op ∈ words → Stops isNamePart rest

end Token

/-! ### Numbers -/

/-- **What is read as a number without sign is a numeral**, taken as far as it goes. -/
theorem exists_numeral (h : natural? cs = some (n, rest)) : ∃ num : Numeral, num.value = n ∧
    num.text ++ rest = cs ∧ Stops (isDigit num.base) rest ∧ n < 2 ^ 63 := by
  have hbound : 0 < Text.signedBound := by decide
  have hdecimal {cs : List Char} (h : digits? 10 Text.signedBound cs = some (n, rest)) :
      ∃ num : Numeral, num.value = n ∧ num.text ++ rest = cs ∧ Stops (isDigit num.base) rest ∧
        n < 2 ^ 63 := by
    obtain ⟨ds, hvalue, htext, hstops, hlt⟩ := (digits?_eq_some_iff (by decide) hbound).1 h
    exact ⟨.decimal ds, hvalue, htext, hstops, hlt⟩
  unfold natural? at h
  split at h
  · rename_i x ds
    split at h
    · rename_i hx
      rcases Option.or_eq_some_iff.1 h with h | ⟨-, h⟩
      · obtain ⟨ds, hvalue, rfl, hstops, hlt⟩ := (digits?_eq_some_iff (by decide) hbound).1 h
        rcases hx with rfl | rfl
        · exact ⟨.hexadecimal false ds, hvalue, rfl, hstops, hlt⟩
        · exact ⟨.hexadecimal true ds, hvalue, rfl, hstops, hlt⟩
      · exact hdecimal h
    · exact hdecimal h
  · exact hdecimal h

theorem natural?_numeral {num : Numeral} (hvalue : num.value < 2 ^ 63) (h : Ended rest) :
    natural? (num.text ++ rest) = some (num.value, rest) := by
  have hbound : 0 < Text.signedBound := by decide
  cases num with
  | decimal ds =>
    exact natural?_of_digits? ds.digit ds.ne_nil h ((digits?_eq_some_iff (by decide) hbound).2
      ⟨ds, rfl, rfl, h.stops (by decide), hvalue⟩)
  | hexadecimal capital ds =>
    have hdigits : digits? 16 Text.signedBound (ds.chars ++ rest) = some (ds.value, rest) :=
      (digits?_eq_some_iff (by decide) hbound).2 ⟨ds, rfl, rfl, h.stops (by decide), hvalue⟩
    cases capital <;> simp [Numeral.text, Numeral.value, natural?, hdigits]

theorem exists_number {v : Int} (h : integer? cs = some (v, rest)) :
    ∃ t : Token, t.operand = .int v ∧ t.text ++ rest = cs ∧ t.Munched rest := by
  unfold integer? at h
  split at h
  all_goals
    obtain ⟨⟨n, rest'⟩, hn, heq⟩ := Option.map_eq_some_iff.1 h
    obtain ⟨rfl, rfl⟩ := Prod.mk.inj heq
    obtain ⟨num, rfl, rfl, hstops, hlt⟩ := exists_numeral hn
  · exact ⟨.number true num hlt, rfl, rfl, hstops⟩
  · exact ⟨.number false num hlt, rfl, rfl, hstops⟩

/-! ### Operators -/

theorem append_of_after? (h : after? xs cs = some rest) : xs ++ rest = cs := by
  induction xs generalizing cs with
  | nil =>
    obtain rfl := Option.some.inj h
    rfl
  | cons x xs ih =>
    cases cs with
    | nil => contradiction
    | cons c cs =>
      rw [after?] at h
      split at h
      · rename_i hx
        rw [List.cons_append, ih h, hx]
      · contradiction

theorem exists_operator {op : Operator} (h : operator? cs = some (op, rest)) :
    op.symbol.toList ++ rest = cs ∧ (op ∈ words → Stops isNamePart rest) := by
  unfold operator? at h
  rcases Option.or_eq_some_iff.1 h with h | ⟨-, h⟩
  · obtain ⟨op', hmem, hop⟩ := List.exists_of_findSome?_eq_some h
    obtain ⟨rest', hafter, heq⟩ := Option.map_eq_some_iff.1 hop
    obtain ⟨rfl, rfl⟩ := Prod.mk.inj heq
    refine ⟨append_of_after? hafter, fun hword => ?_⟩
    have hdisjoint : ∀ op ∈ signs, op ∉ words := by decide
    exact absurd hword (hdisjoint op' hmem)
  · obtain ⟨op', -, hop⟩ := List.exists_of_findSome?_eq_some h
    split at hop
    · contradiction
    · rename_i rest' hafter
      split at hop
      · contradiction
      · rename_i hpart
        obtain ⟨rfl, rfl⟩ := Prod.mk.inj (Option.some.inj hop)
        refine ⟨append_of_after? hafter, fun _ c hc => ?_⟩
        have hhead : rest'.head? = some c := hc
        simpa [hhead] using hpart

/-! ### Operands -/

/-- **What is read as an operand is a token**, taken as far as it goes. -/
theorem exists_token {o : Operand} (h : operand? cs = some (o, rest)) :
    ∃ t : Token, t.operand = o ∧ t.text ++ rest = cs ∧ t.Munched rest := by
  unfold operand? at h
  split at h
  · obtain ⟨⟨n, rest'⟩, hn, heq⟩ := Option.map_eq_some_iff.1 h
    obtain ⟨rfl, rfl⟩ := Prod.mk.inj heq
    obtain ⟨ds, rfl, rfl, hstops, hlt⟩ := (digits?_eq_some_iff (by decide) (by decide)).1 hn
    exact ⟨.register ds (Nat.le_of_lt_succ hlt), rfl, rfl, hstops⟩
  · obtain ⟨⟨n, rest'⟩, hn, heq⟩ := Option.map_eq_some_iff.1 h
    obtain ⟨rfl, rfl⟩ := Prod.mk.inj heq
    obtain ⟨name, rfl, rfl, hstops⟩ := name?_eq_some_iff.1 hn
    exact ⟨.label name, rfl, rfl, hstops⟩
  · split at h
    · rename_i hv
      obtain ⟨rfl, rfl⟩ := Prod.mk.inj (Option.some.inj h)
      exact exists_number hv
    · obtain ⟨⟨op, rest'⟩, hop, heq⟩ := Option.map_eq_some_iff.1 h
      obtain ⟨rfl, rfl⟩ := Prod.mk.inj heq
      obtain ⟨htext, hstops⟩ := exists_operator hop
      exact ⟨.operator op, rfl, htext, hstops⟩

/-- **A token with an end behind it is read as the operand it stands for.** -/
theorem operand?_token (t : Token) (h : Ended rest) :
    operand? (t.text ++ rest) = some (t.operand, rest) := by
  cases t with
  | register ds hvalue =>
    have hdigits : digits? 10 256 (ds.chars ++ rest) = some (ds.value, rest) :=
      (digits?_eq_some_iff (by decide) (by decide)).2
        ⟨ds, rfl, rfl, h.stops (by decide), Nat.lt_succ_of_le hvalue⟩
    rw [Token.text, List.cons_append, operand?, hdigits]
    rfl
  | label name =>
    rw [Token.text, List.cons_append, operand?, name?_append name.proper (h.stops (by decide))]
    rfl
  | number negative num hvalue =>
    have hnatural := natural?_numeral hvalue h
    cases negative with
    | false => exact operand?_of_integer? (integer?_of_natural? hnatural)
    | true => exact operand?_of_integer? (integer?_minus hnatural)
  | operator op => exact operand?_of_operator? (integer?_symbol op h) (operator?_append op h)

/-! ### Tokens are told apart by their characters -/

theorem Numeral.head_text (num : Numeral) : ∃ c cs, num.text = c :: cs ∧ isDigit 10 c = true := by
  cases num with
  | decimal ds =>
    obtain ⟨chars, hne, hdigit⟩ := ds
    cases chars with
    | nil => exact absurd rfl hne
    | cons c cs => exact ⟨c, cs, rfl, hdigit c (by simp)⟩
  | hexadecimal capital ds => exact ⟨'0', _, rfl, by decide⟩

theorem Numeral.eq_of_text {num num' : Numeral} (h : num.text = num'.text) : num = num' := by
  have hmixed {capital : Bool} {ds : Digits 16} {ds' : Digits 10}
      (h : (hexadecimal capital ds).text = ds'.chars) : False := by
    have hx := ds'.digit (if capital then 'X' else 'x') (by simp [← h, text])
    cases capital <;> exact absurd hx (by decide)
  cases num with
  | decimal ds =>
    cases num' with
    | decimal ds' => exact congrArg decimal (Digits.ext h)
    | hexadecimal => exact (hmixed h.symm).elim
  | hexadecimal capital ds =>
    cases num' with
    | decimal => exact (hmixed h).elim
    | hexadecimal capital' ds' =>
      obtain ⟨hx, hds⟩ := List.cons.inj (List.tail_eq_of_cons_eq h)
      obtain rfl := Digits.ext hds
      cases capital <;> cases capital' <;> first | rfl | exact absurd hx (by decide)

/-- **Two tokens do not look the same.** -/
theorem Token.eq_of_text {t t' : Token} (h : t.text = t'.text) : t = t' := by
  -- In front of a semicolon both are read, as the same operand.
  have hend : Ended [';'] := ⟨';', by decide, [], rfl⟩
  have hread := operand?_token t hend
  rw [h, operand?_token t' hend] at hread
  have hoperand : t'.operand = t.operand := (Prod.mk.inj (Option.some.inj hread)).1
  cases t <;> cases t' <;> try contradiction
  case register.register =>
    obtain rfl := Digits.ext (List.tail_eq_of_cons_eq h)
    rfl
  case label.label =>
    obtain rfl := Name.ext (Operand.label.inj hoperand)
    rfl
  case operator.operator op op' =>
    have hop := Operator.ofSymbol?_symbol op
    rw [String.toList_inj.1 h, Operator.ofSymbol?_symbol] at hop
    exact congrArg operator (Option.some.inj hop).symm
  case number.number negative num _ negative' num' _ =>
    -- Digits are no sign, so both have one or neither.
    have hsign {num num' : Numeral} (h : '-' :: num.text = num'.text) : False := by
      obtain ⟨c, cs, hcs, hdigit⟩ := num'.head_text
      obtain rfl : '-' = c := List.head_eq_of_cons_eq (h.trans hcs)
      exact absurd hdigit (by decide)
    cases negative <;> cases negative'
    case false.true => exact (hsign h.symm).elim
    case true.false => exact (hsign h).elim
    case false.false =>
      obtain rfl := Numeral.eq_of_text h
      rfl
    case true.true =>
      obtain rfl := Numeral.eq_of_text (List.tail_eq_of_cons_eq h)
      rfl

end PulseProcessor.Listing
