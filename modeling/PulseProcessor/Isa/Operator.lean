/-!
# Operators

The symbols that arithmetic, bitwise and branch instructions carry. Comparison, arithmetic and
bitwise operators have code spaces of their own, so several symbols share one code; which of them
a code means is decided by the instruction it stands in.
-/

namespace PulseProcessor.Isa

/-- An operator of the instruction set. -/
inductive Operator where
  | gt | ge | lt | le | eq | ne
  | add | sub | mul
  | and | or | xor | not | shl | shr
  | upper | lower
  deriving DecidableEq, Repr

namespace Operator

def all : List Operator :=
  [gt, ge, lt, le, eq, ne, add, sub, mul, and, or, xor, not, shl, shr, upper, lower]

/-- The code in the 4-bit operator field. -/
def code : Operator → Nat
  | gt => 0
  | ge => 1
  | lt => 2
  | le => 3
  | eq => 4
  | ne => 5
  | add => 8
  | sub => 9
  | mul => 10
  | and => 0
  | or => 1
  | xor => 2
  | not => 3
  | shl => 4
  | shr => 5
  | upper => 10
  | lower => 5

/-- The symbol that a listing writes. -/
def symbol : Operator → String
  | gt => ">"
  | ge => ">="
  | lt => "<"
  | le => "<="
  | eq => "=="
  | ne => "!="
  | add => "+"
  | sub => "-"
  | mul => "*"
  | and => "&"
  | or => "|"
  | xor => "^"
  | not => "~"
  | shl => "<<"
  | shr => ">>"
  | upper => "upper"
  | lower => "lower"

/-- The operator with a given symbol. -/
def ofSymbol? (s : String) : Option Operator := all.find? (·.symbol == s)

theorem mem_all (o : Operator) : o ∈ all := by cases o <;> decide

/-- Symbols are pairwise distinct, so reading a symbol back gives the operator. -/
theorem ofSymbol?_symbol (o : Operator) : ofSymbol? o.symbol = some o := by
  cases o <;> decide

end Operator
end PulseProcessor.Isa
