import PulseProcessor.Isa.Field

/-!
# Differences of word lists

Two programs are compared place by place. A place is listed when its words differ or when only one
program reaches it.
-/

namespace PulseProcessor.WordListing

/-- A place at which two programs differ. -/
structure Difference where
  index : Nat
  /-- The word of each side, if that side reaches the place. -/
  left : Option Word
  right : Option Word
  /-- The bits that differ, the lowest first; none if a word is missing. -/
  bits : List Nat
  deriving DecidableEq, Repr

/-- The bits in which two words differ, the lowest first. -/
def differingBits (a b : Word) : List Nat :=
  (List.range 64).filter fun k => (a ^^^ b).toNat.testBit k

/-- The difference at a place, if there is one. -/
def Difference.at? (left right : List Word) (index : Nat) : Option Difference :=
  let l := left[index]?
  let r := right[index]?
  if l = r then none
  else
    let bits := match l, r with
      | some a, some b => differingBits a b
      | _, _ => []
    some ⟨index, l, r, bits⟩

/-- All differences, in the order of their places. -/
def differences (left right : List Word) : List Difference :=
  (List.range (max left.length right.length)).filterMap (Difference.at? left right)

end PulseProcessor.WordListing
