import Mathlib.Algebra.Group.Nat.Defs
import PulseProcessor.Proofs.Isa.Field
import PulseProcessor.WordListing.Difference

/-! # Differences that can be carried out

A difference can be taken as an instruction: flip these bits, put this word there, end here.
Carried out one after the other, the differences of two programs turn the first into the second.
In the middle of that, the words are those of the second program up to some place, and behind it
those of the first are still there, unless the second has ended before (`halfway`); so a step has
only its own place to look at (`foldl_patch_at?`).

A list that can be carried out may still be longer than it has to be, or say more than there is to
see.  `Describes` is what else to expect: places in ascending order, each of them listed exactly if
the programs differ there, with the words of both and just the bits that are not the same
(`differences_exact`).
-/

namespace PulseProcessor.WordListing

variable {left right : List Word} {a b : Word} {bits : List Nat} {d : Difference} {i k : Nat}

/-! ### Bits -/

/-- A word with one bit changed. -/
def flipBit (w : Word) (k : Nat) : Word := w ^^^ 1 <<< UInt64.ofNat k

/-- A word with the listed bits changed, one after the other. -/
def flipBits (w : Word) (bits : List Nat) : Word := bits.foldl flipBit w

theorem testBit_flipBit (hk : k < 64) (w : Word) (i : Nat) :
    (flipBit w k).toNat.testBit i = (w.toNat.testBit i ^^ decide (i = k)) := by
  have hshift : k % 2 ^ 64 % 64 = k := by omega
  have hone : (1 <<< k) % 2 ^ 64 = 2 ^ k := by
    rw [Nat.one_shiftLeft]
    exact Nat.mod_eq_of_lt (Nat.pow_lt_pow_right (by decide) hk)
  rw [flipBit, UInt64.toNat_xor, Nat.testBit_xor, UInt64.toNat_shiftLeft, UInt64.toNat_ofNat',
    hshift, UInt64.toNat_one, hone, Nat.testBit_two_pow]
  simp only [eq_comm]

/-- **A bit is changed exactly if it is listed**, provided that none is listed twice. -/
theorem testBit_flipBits (hbits : ∀ k ∈ bits, k < 64) (hnodup : bits.Nodup) (w : Word) (i : Nat) :
    (flipBits w bits).toNat.testBit i = (w.toNat.testBit i ^^ decide (i ∈ bits)) := by
  induction bits generalizing w with
  | nil => simp [flipBits]
  | cons k bits ih =>
    obtain ⟨hk, hbits⟩ := List.forall_mem_cons.1 hbits
    obtain ⟨hfresh, hnodup⟩ := List.nodup_cons.1 hnodup
    have hstep : flipBits w (k :: bits) = flipBits (flipBit w k) bits := rfl
    rw [hstep, ih hbits hnodup, testBit_flipBit hk]
    by_cases hi : i = k
    · subst hi
      simp [hfresh]
    · simp [hi]

theorem mem_differingBits : k ∈ differingBits a b ↔
    k < 64 ∧ a.toNat.testBit k ≠ b.toNat.testBit k := by
  simp [differingBits]

theorem differingBits_comm (a b : Word) : differingBits a b = differingBits b a := by
  rw [differingBits, differingBits, UInt64.xor_comm]

theorem pairwise_differingBits (a b : Word) : (differingBits a b).Pairwise (· < ·) :=
  List.pairwise_lt_range.filter _

/-- **Changing the bits in which two words differ makes one the other.** -/
theorem flipBits_differingBits (a b : Word) : flipBits a (differingBits a b) = b := by
  apply UInt64.toNat.inj
  apply Nat.eq_of_testBit_eq
  intro i
  have hbits : ∀ k ∈ differingBits a b, k < 64 := fun k hk => (mem_differingBits.1 hk).1
  rw [testBit_flipBits hbits ((pairwise_differingBits a b).imp Nat.ne_of_lt)]
  by_cases hi : i < 64
  · simp only [mem_differingBits, hi, true_and]
    cases a.toNat.testBit i <;> cases b.toNat.testBit i <;> rfl
  · -- There are no bits there.
    have hnone (w : Word) : w.toNat.testBit i = false :=
      Isa.testBit_of_lt (n := 64) w.toNat_lt (Nat.le_of_not_lt hi)
    simp [mem_differingBits, hi, hnone]

/-! ### What a difference says -/

/-- **Two programs differ at a place**: there are two words that are not the same, or just one of
the programs reaches it. -/
def Differ (left right : List Word) (i : Nat) : Prop :=
  (∃ a b, left[i]? = some a ∧ right[i]? = some b ∧ a ≠ b) ∨
    ¬ (i < left.length ↔ i < right.length)

theorem differ_iff : Differ left right i ↔ left[i]? ≠ right[i]? := by
  have hreach (ws : List Word) : i < ws.length ↔ ws[i]?.isSome = true := by simp
  rw [Differ, hreach left, hreach right]
  cases left[i]? <;> cases right[i]? <;> simp

/-- **A difference of two programs**, as it ought to be: they differ at its place, it has the words
that they have there, and all the bits in which these are not the same, the lowest first. -/
structure Difference.Tells (left right : List Word) (d : Difference) : Prop where
  differ : Differ left right d.index
  left : d.left = left[d.index]?
  right : d.right = right[d.index]?
  ascending : d.bits.Pairwise (· < ·)
  bits : ∀ a b, d.left = some a → d.right = some b → ∀ k,
    k ∈ d.bits ↔ k < 64 ∧ a.toNat.testBit k ≠ b.toNat.testBit k
  flips : ∀ a b, d.left = some a → d.right = some b → flipBits a d.bits = b
  /-- Nothing is said of bits if a word is missing. -/
  missing : d.left = none ∨ d.right = none → d.bits = []

/-- **A list tells exactly where and how two programs differ.** -/
structure Describes (ds : List Difference) (left right : List Word) : Prop where
  ascending : (ds.map (·.index)).Pairwise (· < ·)
  tells : ∀ d ∈ ds, d.Tells left right
  complete : ∀ i, Differ left right i → ∃ d ∈ ds, d.index = i

/-- The bits that a difference lists. -/
def bitsBetween : Option Word → Option Word → List Nat
  | some a, some b => differingBits a b
  | _, _ => []

theorem bitsBetween_comm (x y : Option Word) : bitsBetween x y = bitsBetween y x := by
  cases x with
  | none => cases y <;> rfl
  | some a =>
    cases y with
    | none => rfl
    | some b => exact differingBits_comm a b

theorem pairwise_bitsBetween (x y : Option Word) : (bitsBetween x y).Pairwise (· < ·) := by
  unfold bitsBetween
  split
  · exact pairwise_differingBits ..
  · exact .nil

namespace Difference

theorem at?_of_eq (h : left[i]? = right[i]?) : at? left right i = none := if_pos h

theorem at?_of_ne (h : left[i]? ≠ right[i]?) : at? left right i =
    some ⟨i, left[i]?, right[i]?, bitsBetween left[i]? right[i]?⟩ := by
  rw [at?, if_neg h]
  rfl

/-- **What is listed for a place is a difference there.** -/
theorem at?_eq_some (h : at? left right i = some d) : d.index = i ∧ d.Tells left right := by
  by_cases hsame : left[i]? = right[i]?
  · rw [at?_of_eq hsame] at h
    contradiction
  · obtain rfl := Option.some.inj ((at?_of_ne hsame).symm.trans h)
    refine ⟨rfl, differ_iff.2 hsame, rfl, rfl, pairwise_bitsBetween .., ?_, ?_, ?_⟩
    · intro a b (ha : left[i]? = some a) (hb : right[i]? = some b) k
      rw [ha, hb]
      exact mem_differingBits
    · intro a b (ha : left[i]? = some a) (hb : right[i]? = some b)
      rw [ha, hb]
      exact flipBits_differingBits a b
    · rintro ((hnone : left[i]? = none) | (hnone : right[i]? = none))
      · rw [hnone]
        rfl
      · rw [hnone, bitsBetween_comm]
        rfl

theorem exists_at? (h : Differ left right i) :
    ∃ d, at? left right i = some d ∧ d.index = i :=
  ⟨_, at?_of_ne (differ_iff.1 h), rfl⟩

end Difference

/-- Behind the ends of both programs nothing differs. -/
theorem Differ.lt_max (h : Differ left right i) : i < max left.length right.length := by
  rcases h with ⟨a, -, ha, -⟩ | h
  · exact Nat.lt_of_lt_of_le (List.getElem?_eq_some_iff.1 ha).1 (Nat.le_max_left ..)
  · omega

theorem describes_differences (left right : List Word) :
    Describes (differences left right) left right where
  ascending := by
    refine List.pairwise_map.2 (List.Pairwise.filterMap _ ?_ List.pairwise_lt_range)
    intro i j hij d hd d' hd'
    rw [(Difference.at?_eq_some hd).1, (Difference.at?_eq_some hd').1]
    exact hij
  tells d hd := by
    obtain ⟨i, -, hi⟩ := List.mem_filterMap.1 hd
    exact (Difference.at?_eq_some hi).2
  complete i hi := by
    obtain ⟨d, hd, hindex⟩ := Difference.exists_at? hi
    exact ⟨d, List.mem_filterMap.2 ⟨i, List.mem_range.2 hi.lt_max, hd⟩, hindex⟩

/-- **There are no differences exactly between equal programs.** -/
theorem differences_eq_nil_iff : differences left right = [] ↔ left = right := by
  constructor
  · intro h
    refine List.ext_getElem? fun i => Classical.byContradiction fun hne => ?_
    obtain ⟨d, hd, -⟩ := (describes_differences left right).complete i (differ_iff.2 hne)
    simp [h] at hd
  · rintro rfl
    exact List.filterMap_eq_nil_iff.2 fun i _ => Difference.at?_of_eq rfl

/-! ### The other way round -/

/-- The same difference, seen from the other side. -/
def Difference.swap (d : Difference) : Difference := { d with left := d.right, right := d.left }

theorem Difference.at?_swap (left right : List Word) (i : Nat) :
    at? right left i = (at? left right i).map swap := by
  by_cases hsame : left[i]? = right[i]?
  · rw [at?_of_eq hsame, at?_of_eq hsame.symm]
    rfl
  · rw [at?_of_ne hsame, at?_of_ne (Ne.symm hsame), bitsBetween_comm]
    rfl

/-- **The differences in the other direction** are the same with their sides exchanged. -/
theorem differences_swap (left right : List Word) :
    differences right left = (differences left right).map Difference.swap := by
  rw [differences, differences, List.map_filterMap, Nat.max_comm]
  exact congrArg (List.filterMap · _) (funext (Difference.at?_swap left right))

/-! ### Patching -/

/-- Carries out a difference: changes the word at its place, puts one there, or ends the program in
front of it. -/
def Difference.patch (ws : List Word) (d : Difference) : List Word :=
  match d.left, d.right with
  | some _, some _ => ws.modify d.index (flipBits · d.bits)
  | none, some w => ws.insertIdx d.index w
  | _, none => ws.take d.index

/-- What the first program has become when all places below `k` have been dealt with. -/
def halfway (left right : List Word) (k : Nat) : List Word :=
  right.take k ++ if k ≤ right.length then left.drop k else []

theorem halfway_of_le (h : k ≤ right.length) :
    halfway left right k = right.take k ++ left.drop k := by
  rw [halfway, if_pos h]

theorem halfway_of_lt (h : right.length < k) : halfway left right k = right := by
  rw [halfway, if_neg (Nat.not_le.2 h), List.append_nil, List.take_of_length_le (Nat.le_of_lt h)]

theorem halfway_of_length_le (h : left.length ≤ k) : halfway left right k = right.take k := by
  rw [halfway, List.drop_eq_nil_of_le h, ite_self, List.append_nil]

/-- Where the second program has ended, the first one is cut off. -/
theorem take_halfway (h : right.length ≤ k) : (halfway left right k).take k = right := by
  by_cases hle : k ≤ right.length
  · rw [halfway_of_le hle, List.take_of_length_le h, List.take_left' (Nat.le_antisymm h hle)]
  · rw [halfway_of_lt (Nat.lt_of_not_le hle), List.take_of_length_le h]

theorem insertIdx_append {ws : List Word} (h : ws.length = k) (w : Word) :
    ws.insertIdx k w = ws ++ [w] := by
  subst h
  exact List.insertIdx_length_self

theorem modify_append {ws later : List Word} (h : ws.length = k) (w : Word) (f : Word → Word) :
    (ws ++ w :: later).modify k f = ws ++ f w :: later := by
  subst h
  rw [List.modify_eq_take_cons_drop]
  all_goals simp

/-- **One step of patching** deals with one place. -/
theorem foldl_patch_at? (left right : List Word) (k : Nat) :
    (Difference.at? left right k).toList.foldl Difference.patch (halfway left right k) =
      halfway left right (k + 1) := by
  cases hr : right[k]? with
  | none =>
    have hend : right.length ≤ k := List.getElem?_eq_none_iff.1 hr
    rw [halfway_of_lt (Nat.lt_succ_of_le hend)]
    cases hl : left[k]? with
    | none =>
      rw [Difference.at?_of_eq (hl.trans hr.symm),
        halfway_of_length_le (List.getElem?_eq_none_iff.1 hl)]
      exact List.take_of_length_le hend
    | some a =>
      rw [Difference.at?_of_ne (by simp [hl, hr]), hl, hr]
      exact take_halfway hend
  | some b =>
    have hlt : k < right.length := (List.getElem?_eq_some_iff.1 hr).1
    have hlength : (right.take k).length = k := List.length_take_of_le (Nat.le_of_lt hlt)
    have htake : right.take (k + 1) = right.take k ++ [b] := by
      rw [List.take_add_one, hr, Option.toList_some]
    cases hl : left[k]? with
    | none =>
      have hend : left.length ≤ k := List.getElem?_eq_none_iff.1 hl
      rw [Difference.at?_of_ne (by simp [hl, hr]), hl, hr, halfway_of_length_le hend,
        halfway_of_length_le (Nat.le_succ_of_le hend), htake]
      exact insertIdx_append hlength b
    | some a =>
      have hdrop : left.drop k = a :: left.drop (k + 1) := by
        rw [List.drop_eq_getElem?_toList_append, hl, Option.toList_some, List.singleton_append]
      rw [halfway_of_le (Nat.le_of_lt hlt), halfway_of_le hlt, hdrop, htake, List.append_assoc,
        List.singleton_append]
      by_cases hsame : a = b
      · rw [Difference.at?_of_eq (by rw [hl, hr, hsame]), hsame]
        rfl
      · rw [Difference.at?_of_ne (by simpa [hl, hr] using hsame), hl, hr]
        refine (modify_append hlength a _).trans ?_
        rw [bitsBetween, flipBits_differingBits]

theorem halfway_zero (left right : List Word) : halfway left right 0 = left := by
  simp [halfway]

theorem foldl_patch_filterMap (left right : List Word) (k : Nat) :
    ((List.range k).filterMap (Difference.at? left right)).foldl Difference.patch left =
      halfway left right k := by
  induction k with
  | zero => simp [halfway_zero]
  | succ k ih =>
    have hlast : [k].filterMap (Difference.at? left right) =
        (Difference.at? left right k).toList := by
      cases h : Difference.at? left right k <;> simp [h]
    rw [List.range_succ, List.filterMap_append, List.foldl_append, ih, hlast, foldl_patch_at?]

/-- **Carrying out its differences turns a program into the other one.** -/
theorem foldl_patch_differences (left right : List Word) :
    (differences left right).foldl Difference.patch left = right := by
  rw [differences, foldl_patch_filterMap]
  rw [halfway_of_length_le (Nat.le_max_left ..), List.take_of_length_le (Nat.le_max_right ..)]

/-- **A program diff is complete and exact.**  It describes just where and how the two programs
differ, so it is empty only for equal ones; carried out, it turns the first into the second; and in
the other direction it is the same one with its sides exchanged. -/
theorem differences_exact (left right : List Word) :
    Describes (differences left right) left right ∧
      (differences left right).foldl Difference.patch left = right ∧
      (differences left right = [] ↔ left = right) ∧
      differences right left = (differences left right).map Difference.swap :=
  ⟨describes_differences .., foldl_patch_differences .., differences_eq_nil_iff,
    differences_swap ..⟩

/-- The highest bit counts, and so does a word that is missing. -/
example : differences [0x8000000000000002, 7, 5] [0, 7] =
    [⟨0, some 0x8000000000000002, some 0, [1, 63]⟩, ⟨2, some 5, none, []⟩] := by
  decide +kernel

end PulseProcessor.WordListing
