/-!
# Memories

Sizes of the processor's memories, and where the host finds a word of data memory in the register
window through which it reaches the board.
-/

namespace PulseProcessor

/-- The data memory word in which averaging programs publish their shot counter. -/
def counterAddress : Nat := 1

/-- 32-bit words of data memory. -/
def dataMemoryDepth : Nat := 1 <<< 10

/-- 64-bit words of program memory. Jump targets are as wide as its addresses. -/
def programMemoryDepth : Nat := 1 <<< 16

/-- Bytes of the host's window in front of data memory. -/
def dataMemoryOffset : Nat := 256

/-- The byte offset of a data memory word in the host's window. -/
def windowOffset (addr : Nat) : Nat := 4 * addr + dataMemoryOffset

end PulseProcessor
