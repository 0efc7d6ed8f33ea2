import PulseProcessor.Isa.Field

/-!
# Samples

A readout accumulates pairs of signed 32-bit numbers. A 64-bit word carries one pair, the in-phase
part in its low half and the quadrature part in its high half.
-/

namespace PulseProcessor

/-- One accumulated sample. -/
structure Sample where
  i : Int32
  q : Int32
  deriving DecidableEq, Repr

namespace Sample

def ofWord (w : Word) : Sample := ⟨w.toUInt32.toInt32, (w >>> 32).toUInt32.toInt32⟩

def toWord (s : Sample) : Word := (s.q.toUInt32.toUInt64 <<< 32) ||| s.i.toUInt32.toUInt64

/-- What the simulated readout `channel` delivers as its sample `index`, so that drained data can
be checked. -/
def simulated (channel index : Nat) : Sample :=
  ⟨Int32.ofNat index + Int32.ofNat channel * 1000000, -Int32.ofNat index⟩

end Sample
end PulseProcessor
