import PulseProcessor.Assembly.Program
import PulseProcessor.Listing.Token
import PulseProcessor.Proofs.Text.Digits
import PulseProcessor.Proofs.Text.Lines

/-! # Tokens read back

A token that a listing writes has a blank, a comma, a colon or a semicolon behind it
(`Delimited`).  None of them can be part of a name, a number or an operator, so reading the token
stops exactly there.
-/

namespace PulseProcessor

open Isa (Operator)

/-! ### What a listing keeps of an operand -/

theorem OperatorRef.text_of_resolve {o : OperatorRef} {op : Operator} (h : o.resolve = .ok op) :
    o.text = op.symbol := by
  cases o with
  | known op' =>
    cases h
    rfl
  | symbol s =>
    rw [resolve] at h
    split at h
    · rename_i hop
      cases h
      rw [Operator.ofSymbol?] at hop
      have hsymbol : op.symbol = s := by simpa using List.find?_some hop
      exact hsymbol.symm
    · contradiction

namespace Operand

/-- The mark in front of an operand, by which a reader tells registers and labels from the rest. -/
def mark : Operand → List Char
  | reg _ => ['$']
  | label _ => ['@']
  | int _ | op _ => []

/-- The operand that a listing gives back: of an operator only its symbol is left. -/
def named : Operand → Operand
  | op o => op (.symbol o.text)
  | int v => int v
  | reg n => reg n
  | label name => label name

/-- The operand can be written in a listing: a number that the reader takes, a proper name, an
operator that exists. -/
def Readable : Operand → Prop
  | int v => v.natAbs < Text.signedBound
  | reg _ => True
  | label name => Program.isLabelName name = true
  | op o => ∃ op, o.resolve = .ok op

end Operand

namespace Listing

/-! ### Ends of tokens -/

variable {f : Char → Bool} {cs rest xs : List Char}

/-- The text does not go on with characters of a class. -/
def Stops (f : Char → Bool) (cs : List Char) : Prop := ∀ c ∈ cs.head?, f c = false

theorem stops_nil : Stops f [] := fun _ hc => nomatch hc

theorem stops_cons {c : Char} (hc : f c = false) : Stops f (c :: cs) := by
  intro c' hc'
  obtain rfl : c = c' := Option.some.inj hc'
  exact hc

theorem stops_dropWhile (f : Char → Bool) (cs : List Char) : Stops f (cs.dropWhile f) := by
  induction cs with
  | nil => simp [Stops]
  | cons c cs ih =>
    by_cases hc : f c = true
    · simpa [List.dropWhile_cons, hc] using ih
    · simp [hc, Stops]

/-- Characters of a class are read up to where they stop. -/
theorem span_append (hxs : ∀ c ∈ xs, f c = true) (h : Stops f rest) :
    (xs ++ rest).takeWhile f = xs ∧ (xs ++ rest).dropWhile f = rest := by
  rw [List.takeWhile_append_of_pos hxs, List.dropWhile_append_of_pos hxs]
  cases rest with
  | nil => simp
  | cons c rest =>
    have hc : f c = false := h c rfl
    simp [hc]

/-- What stands behind a token. -/
def delimiters : List Char := [' ', ',', ':', ';']

/-- A text that may follow a token. -/
def Delimited (cs : List Char) : Prop := ∃ c ∈ delimiters, ∃ rest, cs = c :: rest

/-- A text that may follow a token whose blanks need not be spaces. -/
def Ended (cs : List Char) : Prop := ∃ c ∈ '\t' :: delimiters, ∃ rest, cs = c :: rest

theorem Delimited.ended (h : Delimited cs) : Ended cs := by
  obtain ⟨c, hc, rest, rfl⟩ := h
  exact ⟨c, List.mem_cons_of_mem _ hc, rest, rfl⟩

/-- Names and numbers hold no delimiter, so they stop there. -/
theorem Ended.stops (h : Ended cs) (hf : ('\t' :: delimiters).any f = false) : Stops f cs := by
  obtain ⟨c, hc, rest, rfl⟩ := h
  exact stops_cons (by simpa using List.any_eq_false.1 hf c hc)

/-! ### Names -/

theorem name?_append {name : String} (hname : Program.isLabelName name = true)
    (h : Stops isNamePart rest) : name? (name.toList ++ rest) = some (name, rest) := by
  unfold Program.isLabelName at hname
  split at hname
  · contradiction
  · rename_i c cs hcs
    rw [Bool.and_eq_true, List.all_eq_true] at hname
    obtain ⟨htake, hdrop⟩ := span_append (f := isNamePart) hname.2 h
    have hstart : isNameStart c = true := hname.1
    rw [hcs, List.cons_append, name?, if_pos hstart, htake, hdrop, ← hcs, String.ofList_toList]

/-! ### Numbers -/

theorem digits?_append {bound n : Nat} (hn : n < bound) (h : Delimited rest) :
    digits? 10 bound (Nat.toDigits 10 n ++ rest) = some (n, rest) := by
  obtain ⟨htake, hdrop⟩ := span_append (f := fun c => (Text.digit? 10 c).isSome)
    (Text.digit?_isSome_of_mem_toDigits (n := n) (by decide) (by decide))
    (h.ended.stops (by decide))
  simp only [digits?, htake, hdrop, List.isEmpty_iff, Nat.toDigits_ne_nil, if_false,
    Text.readDigits_toDigits (by decide : 1 < 10) (by decide : 10 ≤ 16) hn]

/-- The second character of a number, or the one behind it, is no `x`: decimals are not read as
hexadecimals. -/
theorem ne_x_of_digits_append {c x : Char} (hxs : ∀ c ∈ xs, (Text.digit? 10 c).isSome = true)
    (hne : xs ≠ []) (h : Ended rest) (hcs : xs ++ rest = c :: x :: cs) : ¬ (x = 'x' ∨ x = 'X') := by
  have hx : x ∈ xs ∨ x ∈ '\t' :: delimiters := by
    cases xs with
    | nil => exact absurd rfl hne
    | cons d ds =>
      have htail : ds ++ rest = x :: cs := List.tail_eq_of_cons_eq hcs
      cases ds with
      | nil =>
        obtain ⟨c', hc', rest', rfl⟩ := h
        obtain rfl : c' = x := List.head_eq_of_cons_eq htail
        exact .inr hc'
      | cons d' ds =>
        obtain rfl : d' = x := List.head_eq_of_cons_eq htail
        exact .inl (by simp)
  -- Neither a digit nor a delimiter is a letter.
  rcases hx with hx | hx
  · rintro (rfl | rfl) <;> exact absurd (hxs _ hx) (by decide)
  · rintro (rfl | rfl) <;> exact absurd hx (by decide)

theorem natural?_of_digits? {n : Nat} (hxs : ∀ c ∈ xs, (Text.digit? 10 c).isSome = true)
    (hne : xs ≠ []) (h : Ended rest)
    (hdecimal : digits? 10 Text.signedBound (xs ++ rest) = some (n, rest)) :
    natural? (xs ++ rest) = some (n, rest) := by
  unfold natural?
  split
  · rename_i x ds hcs
    rw [if_neg (ne_x_of_digits_append hxs hne h hcs)]
    exact hdecimal
  · exact hdecimal

theorem natural?_append {n : Nat} (hn : n < Text.signedBound) (h : Delimited rest) :
    natural? (Nat.toDigits 10 n ++ rest) = some (n, rest) :=
  natural?_of_digits? (Text.digit?_isSome_of_mem_toDigits (by decide) (by decide))
    Nat.toDigits_ne_nil h.ended (digits?_append hn h)

/-- Where no digit stands, there is no number. -/
theorem natural?_eq_none {c : Char} (hc : Text.digit? 10 c = none) : natural? (c :: cs) = none := by
  have hdecimal : digits? 10 Text.signedBound (c :: cs) = none := by simp [digits?, hc]
  unfold natural?
  split
  · rename_i hcs
    obtain rfl := List.head_eq_of_cons_eq hcs
    simp [Text.digit?, Text.digitValue] at hc
  · exact hdecimal

theorem toList_toString_ofNat (n : Nat) : (toString (Int.ofNat n)).toList = Nat.toDigits 10 n :=
  Nat.toList_repr

theorem toList_toString_negSucc (n : Nat) :
    (toString (Int.negSucc n)).toList = '-' :: Nat.toDigits 10 (n + 1) := by
  rw [← Nat.toList_repr]
  exact String.toList_append

/-- A number without a sign does not start with one. -/
theorem integer?_of_natural? {n : Nat} (h : natural? cs = some (n, rest)) :
    integer? cs = some ((n : Int), rest) := by
  unfold integer?
  split
  · rw [natural?_eq_none (by decide)] at h
    contradiction
  · rw [h]
    rfl

theorem integer?_minus {n : Nat} (h : natural? cs = some (n, rest)) :
    integer? ('-' :: cs) = some (-(n : Int), rest) := by
  rw [integer?, h]
  rfl

theorem integer?_append {v : Int} (hv : v.natAbs < Text.signedBound) (h : Delimited rest) :
    integer? ((toString v).toList ++ rest) = some (v, rest) := by
  cases v with
  | ofNat n =>
    rw [toList_toString_ofNat]
    exact integer?_of_natural? (natural?_append hv h)
  | negSucc n =>
    rw [toList_toString_negSucc, List.cons_append]
    exact integer?_minus (natural?_append hv h)

/-! ### Operators -/

theorem operator?_append (op : Operator) (h : Ended rest) :
    operator? (op.symbol.toList ++ rest) = some (op, rest) := by
  obtain ⟨c, hc, rest, rfl⟩ := h
  simp only [delimiters, List.mem_cons, List.not_mem_nil, or_false] at hc
  rcases hc with rfl | rfl | rfl | rfl | rfl <;> cases op <;> rfl

/-- An operator is no number: a minus sign has no digit behind it. -/
theorem integer?_symbol (op : Operator) (h : Ended rest) :
    integer? (op.symbol.toList ++ rest) = none := by
  obtain ⟨c, hc, rest, rfl⟩ := h
  simp only [delimiters, List.mem_cons, List.not_mem_nil, or_false] at hc
  rcases hc with rfl | rfl | rfl | rfl | rfl <;> cases op <;> rfl

/-! ### Operands -/

/-- No number starts with a mark. -/
theorem operand?_of_integer? {v : Int} (h : integer? cs = some (v, rest)) :
    operand? cs = some (.int v, rest) := by
  unfold operand?
  split
  · simp [integer?, natural?_eq_none (by decide : Text.digit? 10 '$' = none)] at h
  · simp [integer?, natural?_eq_none (by decide : Text.digit? 10 '@' = none)] at h
  · rw [h]

/-- Neither does an operator. -/
theorem operand?_of_operator? {op : Operator} (hnone : integer? cs = none)
    (h : operator? cs = some (op, rest)) : operand? cs = some (.op (.symbol op.symbol), rest) := by
  unfold operand?
  split
  · cases h
  · cases h
  · rw [hnone, h]
    rfl

/-- **An operand is read back behind its mark.** -/
theorem operand?_append {o : Operand} (ho : o.Readable) (h : Delimited rest) :
    operand? (o.mark ++ o.text.toList ++ rest) = some (o.named, rest) := by
  cases o with
  | int v => exact operand?_of_integer? (integer?_append ho h)
  | reg n =>
    have htext : (Operand.reg n).text.toList = Nat.toDigits 10 n.toNat := Nat.toList_repr
    rw [Operand.mark, htext, List.append_assoc, List.singleton_append, operand?,
      digits?_append n.toNat_lt h]
    simp [Operand.named]
  | label name =>
    change operand? ('@' :: (name.toList ++ rest)) = _
    rw [operand?, name?_append ho (h.ended.stops (by decide))]
    rfl
  | op o =>
    obtain ⟨op, hop⟩ := ho
    rw [Operand.named, Operand.text, OperatorRef.text_of_resolve hop]
    exact operand?_of_operator? (integer?_symbol op h.ended) (operator?_append op h.ended)

/-- What no operand starts with. -/
theorem operand?_eq_none {c : Char} (hc : c ∈ '\t' :: delimiters) : operand? (c :: cs) = none := by
  simp only [delimiters, List.mem_cons, List.not_mem_nil, or_false] at hc
  rcases hc with rfl | rfl | rfl | rfl | rfl <;> rfl

/-! ### No token holds a line break -/

theorem unbroken_name {name : String} (hname : Program.isLabelName name = true) :
    Text.Unbroken name.toList := by
  unfold Program.isLabelName at hname
  split at hname
  · contradiction
  · rename_i c cs hcs
    rw [Bool.and_eq_true, List.all_eq_true] at hname
    rw [hcs]
    refine Text.unbroken_cons.2 ⟨?_, fun d hd => ?_⟩
    · rintro (rfl | rfl) <;> exact absurd hname.1 (by decide)
    · have hpart := hname.2 d hd
      rintro (rfl | rfl) <;> exact absurd hpart (by decide)

theorem unbroken_toDigits (n : Nat) : Text.Unbroken (Nat.toDigits 10 n) := by
  intro c hc
  have hdigit := Text.digit?_isSome_of_mem_toDigits (by decide) (by decide) c hc
  rintro (rfl | rfl) <;> exact absurd hdigit (by decide)

theorem unbroken_text {o : Operand} (ho : o.Readable) : Text.Unbroken o.text.toList := by
  cases o with
  | int v =>
    cases v with
    | ofNat n =>
      rw [Operand.text, toList_toString_ofNat]
      exact unbroken_toDigits n
    | negSucc n =>
      rw [Operand.text, toList_toString_negSucc]
      exact Text.unbroken_cons.2 ⟨by decide, unbroken_toDigits (n + 1)⟩
  | reg n =>
    have htext : (Operand.reg n).text.toList = Nat.toDigits 10 n.toNat := Nat.toList_repr
    rw [htext]
    exact unbroken_toDigits n.toNat
  | label name => exact unbroken_name ho
  | op o =>
    obtain ⟨op, hop⟩ := ho
    rw [Operand.text, OperatorRef.text_of_resolve hop]
    cases op <;> decide

theorem unbroken_mark (o : Operand) : Text.Unbroken o.mark := by
  cases o with
  | reg _ => exact (by decide : Text.Unbroken ['$'])
  | label _ => exact (by decide : Text.Unbroken ['@'])
  | int _ => exact Text.unbroken_nil
  | op _ => exact Text.unbroken_nil

end Listing
end PulseProcessor
