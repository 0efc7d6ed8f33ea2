import PulseProcessor.Assembly.Instruction
import PulseProcessor.Text.Digits

/-!
# Tokens of a listing line

Each function reads one token from the front of a text and answers with the rest, or with nothing
if the text does not start with such a token. Names, numbers and word operators are read as far as
they go.
-/

namespace PulseProcessor.Listing

open Isa (Operator)

/-- Blanks within a line. -/
def isSpace (c : Char) : Bool := c == ' ' || c == '\t'

def skipSpaces (cs : List Char) : List Char := cs.dropWhile isSpace

/-- What a name may start with. -/
def isNameStart (c : Char) : Bool := c.isAlpha || c == '_'

/-- What a name may go on with. -/
def isNamePart (c : Char) : Bool := c.isAlphanum || c == '_'

/-- What stands behind a given beginning. -/
def after? : List Char → List Char → Option (List Char)
  | [], cs => some cs
  | p :: ps, c :: cs => if p = c then after? ps cs else none
  | _ :: _, [] => none

def name? : List Char → Option (String × List Char)
  | [] => none
  | c :: cs =>
    if isNameStart c then
      some (String.ofList (c :: cs.takeWhile isNamePart), cs.dropWhile isNamePart)
    else none

/-- A run of digits of a base, as a number below a bound. -/
def digits? (base bound : Nat) (cs : List Char) : Option (Nat × List Char) :=
  let isDigit := fun c => (Text.digit? base c).isSome
  let ds := cs.takeWhile isDigit
  if ds.isEmpty then none
  else
    match Text.readDigits base bound ds 0 with
    | .ok n => some (n, cs.dropWhile isDigit)
    | .error _ => none

/-- A number without sign: hexadecimal behind `0x`, else decimal. Its value has 63 bits. -/
def natural? (cs : List Char) : Option (Nat × List Char) :=
  let decimal := digits? 10 Text.signedBound cs
  match cs with
  | '0' :: x :: ds =>
    if x = 'x' ∨ x = 'X' then (digits? 16 Text.signedBound ds).or decimal else decimal
  | _ => decimal

/-- A number with an optional minus sign directly in front. -/
def integer? : List Char → Option (Int × List Char)
  | '-' :: cs => (natural? cs).map fun (n, rest) => (-(n : Int), rest)
  | cs => (natural? cs).map fun (n, rest) => ((n : Int), rest)

/-- Operators that are signs, longer ones in front of their own beginnings. -/
def signs : List Operator :=
  [.ge, .le, .eq, .ne, .shl, .shr, .gt, .lt, .add, .sub, .mul, .and, .or, .xor, .not]

/-- Operators that are words. -/
def words : List Operator := [.upper, .lower]

def operator? (cs : List Char) : Option (Operator × List Char) :=
  let sign := signs.findSome? fun op => (after? op.symbol.toList cs).map (op, ·)
  let word := words.findSome? fun op =>
    match after? op.symbol.toList cs with
    | none => none
    | some rest => if (rest.head?.map isNamePart).getD false then none else some (op, rest)
  sign.or word

/-- An operand with its mark. A minus sign is a sign if a number follows at once, else an
operator. -/
def operand? (cs : List Char) : Option (Operand × List Char) :=
  match cs with
  | '$' :: ds => (digits? 10 256 ds).map fun (n, rest) => (.reg (UInt8.ofNat n), rest)
  | '@' :: ns => (name? ns).map fun (n, rest) => (.label n, rest)
  | _ =>
    match integer? cs with
    | some (v, rest) => some (.int v, rest)
    | none => (operator? cs).map fun (op, rest) => (.op (.symbol op.symbol), rest)

/-- What stands between two operands: a comma with optional blanks, or blanks alone. -/
def separator? (cs : List Char) : Option (List Char) :=
  match skipSpaces cs with
  | ',' :: rest => some (skipSpaces rest)
  | rest => if rest.length < cs.length then some rest else none

/-! ### Every token is shorter than the text it starts -/

theorem length_skipSpaces_le (cs : List Char) : (skipSpaces cs).length ≤ cs.length :=
  (List.dropWhile_sublist _).length_le

theorem length_after? {ps cs rest : List Char} (h : after? ps cs = some rest) :
    rest.length + ps.length = cs.length := by
  induction ps generalizing cs with
  | nil => simp [after?] at h; simp [h]
  | cons p ps ih =>
    cases cs with
    | nil => simp [after?] at h
    | cons c cs =>
      simp only [after?] at h
      split at h
      · simp [← ih h]; omega
      · contradiction

theorem length_name? {cs rest : List Char} {n : String} (h : name? cs = some (n, rest)) :
    rest.length < cs.length := by
  cases cs with
  | nil => simp [name?] at h
  | cons c cs =>
    simp only [name?] at h
    split at h
    · simp only [Option.some.injEq, Prod.mk.injEq] at h
      have := (List.dropWhile_sublist isNamePart (l := cs)).length_le
      simp [← h.2]; omega
    · contradiction

theorem length_digits? {base bound n : Nat} {cs rest : List Char}
    (h : digits? base bound cs = some (n, rest)) : rest.length < cs.length := by
  simp only [digits?] at h
  split at h
  · contradiction
  · rename_i hne
    split at h
    · simp only [Option.some.injEq, Prod.mk.injEq] at h
      have hsplit := List.takeWhile_append_dropWhile
        (p := fun c => (Text.digit? base c).isSome) (l := cs)
      have hlen := congrArg List.length hsplit
      rw [List.length_append] at hlen
      have : 0 < (cs.takeWhile fun c => (Text.digit? base c).isSome).length := by
        rw [List.length_pos_iff]; simpa using hne
      rw [← h.2]; omega
    · contradiction

theorem length_natural? {n : Nat} {cs rest : List Char} (h : natural? cs = some (n, rest)) :
    rest.length < cs.length := by
  unfold natural? at h
  split at h
  · split at h
    · rcases Option.or_eq_some_iff.1 h with h | ⟨_, h⟩
      · have := length_digits? h; simp; omega
      · exact length_digits? h
    · exact length_digits? h
  · exact length_digits? h

theorem length_integer? {v : Int} {cs rest : List Char} (h : integer? cs = some (v, rest)) :
    rest.length < cs.length := by
  unfold integer? at h
  split at h
  all_goals
    obtain ⟨⟨n, r⟩, hn, heq⟩ := Option.map_eq_some_iff.1 h
    have hlen := length_natural? hn
    simp only [Prod.mk.injEq] at heq
    simp only [← heq.2, List.length_cons]
    omega

theorem length_operator? {op : Operator} {cs rest : List Char}
    (h : operator? cs = some (op, rest)) : rest.length < cs.length := by
  have pos : ∀ o : Operator, 0 < o.symbol.toList.length := fun o => by cases o <;> decide
  unfold operator? at h
  rcases Option.or_eq_some_iff.1 h with h | ⟨_, h⟩
  · obtain ⟨o, _, ho⟩ := List.exists_of_findSome?_eq_some h
    obtain ⟨r, hr, heq⟩ := Option.map_eq_some_iff.1 ho
    simp only [Prod.mk.injEq] at heq
    have := length_after? hr
    have := pos o
    rw [← heq.2]; omega
  · obtain ⟨o, _, ho⟩ := List.exists_of_findSome?_eq_some h
    split at ho
    · contradiction
    · rename_i r hr
      split at ho
      · contradiction
      · simp only [Option.some.injEq, Prod.mk.injEq] at ho
        have := length_after? hr
        have := pos o
        rw [← ho.2]; omega

theorem length_operand? {o : Operand} {cs rest : List Char} (h : operand? cs = some (o, rest)) :
    rest.length < cs.length := by
  unfold operand? at h
  split at h
  · obtain ⟨⟨n, r⟩, hn, heq⟩ := Option.map_eq_some_iff.1 h
    have := length_digits? hn
    simp_all; omega
  · obtain ⟨⟨n, r⟩, hn, heq⟩ := Option.map_eq_some_iff.1 h
    have := length_name? hn
    simp_all; omega
  · split at h
    · rename_i hi
      have := length_integer? hi
      simp_all
    · obtain ⟨⟨n, r⟩, hn, heq⟩ := Option.map_eq_some_iff.1 h
      have := length_operator? hn
      simp_all

theorem length_separator? {cs rest : List Char} (h : separator? cs = some rest) :
    rest.length < cs.length := by
  unfold separator? at h
  split at h
  · rename_i r hr
    simp only [Option.some.injEq] at h
    have h1 := length_skipSpaces_le cs
    have h2 := length_skipSpaces_le r
    rw [hr] at h1
    simp at h1
    rw [← h]; omega
  · split at h
    · simp_all
    · contradiction

end PulseProcessor.Listing
