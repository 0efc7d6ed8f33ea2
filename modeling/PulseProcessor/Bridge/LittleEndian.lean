import PulseProcessor.Isa.Field

/-!
# Numbers as bytes

Both sides of a bridge write numbers with a fixed count of bytes, the least significant first.
-/

namespace PulseProcessor.Bridge

/-- The low `count` bytes of a number, the least significant first. -/
def littleEndian : Nat → Nat → List UInt8
  | 0, _ => []
  | count + 1, n => UInt8.ofNat n :: littleEndian count (n / 256)

/-- Takes a number of `count` bytes from the front. -/
def takeNumber? : Nat → List UInt8 → Option (Nat × List UInt8)
  | 0, bytes => some (0, bytes)
  | _ + 1, [] => none
  | count + 1, b :: bytes =>
    (takeNumber? count bytes).map fun (n, rest) => (b.toNat + 256 * n, rest)

theorem length_of_takeNumber? {count n : Nat} {bytes rest : List UInt8}
    (h : takeNumber? count bytes = some (n, rest)) : rest.length + count = bytes.length := by
  induction count generalizing n bytes rest with
  | zero => simp_all [takeNumber?]
  | succ count ih =>
    cases bytes with
    | nil => simp [takeNumber?] at h
    | cons b bytes =>
      obtain ⟨⟨m, r⟩, hm, heq⟩ := Option.map_eq_some_iff.1 h
      simp only [Prod.mk.injEq] at heq
      have := ih hm
      rw [← heq.2, List.length_cons]
      omega

/-- What was written is read back, up to the bytes that there was room for. -/
theorem takeNumber?_littleEndian (count n : Nat) (rest : List UInt8) :
    takeNumber? count (littleEndian count n ++ rest) = some (n % Nat.pow 256 count, rest) := by
  induction count generalizing n with
  | zero => simp [littleEndian, takeNumber?, Nat.mod_one]
  | succ count ih =>
    have hb : (UInt8.ofNat n).toNat = n % 256 := by simp
    simp only [littleEndian, List.cons_append, takeNumber?, ih, Option.map_some, hb]
    rw [Nat.pow_eq, Nat.pow_eq, Nat.pow_succ, Nat.mul_comm _ 256, Nat.mod_mul]

/-! ### Words -/

/-- The bytes of words, one behind the other. -/
def wordBytes (words : List Word) : List UInt8 := words.flatMap fun w => littleEndian 8 w.toNat

/-- Takes a number of words from the front. -/
def takeWords? : Nat → List UInt8 → Option (List Word × List UInt8)
  | 0, bytes => some ([], bytes)
  | count + 1, bytes => do
    let (n, rest) ← takeNumber? 8 bytes
    let (words, rest) ← takeWords? count rest
    return (UInt64.ofNat n :: words, rest)

theorem length_of_takeWords? {count : Nat} {words : List Word} {bytes rest : List UInt8}
    (h : takeWords? count bytes = some (words, rest)) :
    rest.length + 8 * count = bytes.length := by
  induction count generalizing words bytes rest with
  | zero => simp_all [takeWords?]
  | succ count ih =>
    simp only [takeWords?, Option.bind_eq_bind, Option.bind_eq_some_iff] at h
    obtain ⟨⟨n, r⟩, hn, ⟨ws, r'⟩, hws, heq⟩ := h
    have h1 := length_of_takeNumber? hn
    have h2 := ih hws
    simp only [Option.pure_def, Option.some.injEq, Prod.mk.injEq] at heq
    obtain ⟨_, rfl⟩ := heq
    dsimp only at h1 h2 ⊢
    omega

end PulseProcessor.Bridge
