import PulseProcessor.Board.Device
import PulseProcessor.Bridge.LittleEndian
import PulseProcessor.Isa.DataMemory

/-!
# Frames

What goes over a bridge. A request is a command byte and fields of 32 bits; a load also carries the
words. A reply is a status of 32 bits and, if the request was carried out, its payload. Frames have
no separators: the command says how long a request is, and the request says how long its reply is.
-/

namespace PulseProcessor

/-! ### Requests -/

/-- The bytes of a request. -/
def Request.bytes : Request → List UInt8
  | .write addr value =>
    0x02 :: (Bridge.littleEndian 4 addr.toNat ++ Bridge.littleEndian 4 value.toNat)
  | .read addr => 0x03 :: Bridge.littleEndian 4 addr.toNat
  | .transfer channel address length timeout =>
    0x04 :: [channel, address, length, timeout].flatMap (Bridge.littleEndian 4)
  | .start => [0x05]
  | .stop => [0x06]
  | .load words => 0x07 :: (Bridge.littleEndian 4 words.length ++ Bridge.wordBytes words)
  | .capacity => [0x08]

namespace Bridge

/-- What a receiver finds at the front of the bytes it has got. -/
inductive Incoming where
  | request (r : Request) (rest : List UInt8)
  /-- The bytes end inside a request. -/
  | incomplete
  /-- What follows cannot be a request. -/
  | refused (fault : ProtocolFault)

/-- The arguments of a write. -/
def takeWrite? (bytes : List UInt8) : Option (Request × List UInt8) := do
  let (addr, rest) ← takeNumber? 4 bytes
  let (value, rest) ← takeNumber? 4 rest
  return (.write (UInt32.ofNat addr) (UInt32.ofNat value), rest)

/-- The argument of a read. -/
def takeRead? (bytes : List UInt8) : Option (Request × List UInt8) := do
  let (addr, rest) ← takeNumber? 4 bytes
  return (.read (UInt32.ofNat addr), rest)

/-- The arguments of a transfer. -/
def takeTransfer? (bytes : List UInt8) : Option (Request × List UInt8) := do
  let (channel, rest) ← takeNumber? 4 bytes
  let (address, rest) ← takeNumber? 4 rest
  let (length, rest) ← takeNumber? 4 rest
  let (timeout, rest) ← takeNumber? 4 rest
  return (.transfer channel address length timeout, rest)

/-- The words of a load. -/
def takeLoad? (count : Nat) (bytes : List UInt8) : Option (Request × List UInt8) := do
  let (words, rest) ← takeWords? count bytes
  return (.load words, rest)

namespace Incoming

/-- A request whose arguments may be cut short. -/
def ofArguments : Option (Request × List UInt8) → Incoming
  | some (r, rest) => request r rest
  | none => incomplete

/-- A load. One that program memory cannot hold is refused at sight of its count. -/
def ofLoad (bytes : List UInt8) : Incoming :=
  match takeNumber? 4 bytes with
  | none => incomplete
  | some (count, rest) =>
    if count > programMemoryDepth then refused (.oversizedLoad count)
    else ofArguments (takeLoad? count rest)

/-- Takes a request from the front of some bytes. -/
def ofBytes : List UInt8 → Incoming
  | [] => incomplete
  | command :: bytes =>
    match command with
    | 0x02 => ofArguments (takeWrite? bytes)
    | 0x03 => ofArguments (takeRead? bytes)
    | 0x04 => ofArguments (takeTransfer? bytes)
    | 0x05 => request .start bytes
    | 0x06 => request .stop bytes
    | 0x07 => ofLoad bytes
    | 0x08 => request .capacity bytes
    | _ => refused (.unknownCommand command)

end Incoming

section
variable {bytes rest : List UInt8} {r : Request}

theorem length_of_takeWrite? (h : takeWrite? bytes = some (r, rest)) :
    rest.length + 8 = bytes.length := by
  simp only [takeWrite?, Option.bind_eq_bind, Option.bind_eq_some_iff, Option.pure_def,
    Option.some.injEq, Prod.mk.injEq] at h
  obtain ⟨⟨_, _⟩, h1, ⟨_, _⟩, h2, _, rfl⟩ := h
  have := length_of_takeNumber? h1
  have := length_of_takeNumber? h2
  dsimp only at *
  omega

theorem length_of_takeRead? (h : takeRead? bytes = some (r, rest)) :
    rest.length + 4 = bytes.length := by
  simp only [takeRead?, Option.bind_eq_bind, Option.bind_eq_some_iff, Option.pure_def,
    Option.some.injEq, Prod.mk.injEq] at h
  obtain ⟨⟨_, _⟩, h1, _, rfl⟩ := h
  exact length_of_takeNumber? h1

theorem length_of_takeTransfer? (h : takeTransfer? bytes = some (r, rest)) :
    rest.length + 16 = bytes.length := by
  simp only [takeTransfer?, Option.bind_eq_bind, Option.bind_eq_some_iff, Option.pure_def,
    Option.some.injEq, Prod.mk.injEq] at h
  obtain ⟨⟨_, _⟩, h1, ⟨_, _⟩, h2, ⟨_, _⟩, h3, ⟨_, _⟩, h4, _, rfl⟩ := h
  have := length_of_takeNumber? h1
  have := length_of_takeNumber? h2
  have := length_of_takeNumber? h3
  have := length_of_takeNumber? h4
  dsimp only at *
  omega

theorem length_of_takeLoad? {count : Nat} (h : takeLoad? count bytes = some (r, rest)) :
    rest.length + 8 * count = bytes.length := by
  simp only [takeLoad?, Option.bind_eq_bind, Option.bind_eq_some_iff, Option.pure_def,
    Option.some.injEq, Prod.mk.injEq] at h
  obtain ⟨⟨_, _⟩, h1, _, rfl⟩ := h
  exact length_of_takeWords? h1

theorem Incoming.eq_some_of_ofArguments {taken : Option (Request × List UInt8)}
    (h : ofArguments taken = request r rest) : taken = some (r, rest) := by
  cases taken with
  | none => simp [ofArguments] at h
  | some p => simp only [ofArguments, request.injEq] at h; simp [← h.1, ← h.2]

theorem Incoming.length_of_ofLoad (h : ofLoad bytes = request r rest) :
    rest.length ≤ bytes.length := by
  unfold ofLoad at h
  split at h
  · contradiction
  · rename_i count after hcount
    split at h
    · contradiction
    · have := length_of_takeNumber? hcount
      have := length_of_takeLoad? (eq_some_of_ofArguments h)
      omega

/-- A request takes up at least its command byte. -/
theorem Incoming.length_lt_of_ofBytes (h : ofBytes bytes = request r rest) :
    rest.length < bytes.length := by
  unfold ofBytes at h
  split at h
  · contradiction
  · rename_i command bytes
    rw [List.length_cons, Nat.lt_succ_iff]
    split at h
    · have := length_of_takeWrite? (eq_some_of_ofArguments h); omega
    · have := length_of_takeRead? (eq_some_of_ofArguments h); omega
    · have := length_of_takeTransfer? (eq_some_of_ofArguments h); omega
    · cases h; exact Nat.le_refl _
    · cases h; exact Nat.le_refl _
    · exact length_of_ofLoad h
    · cases h; exact Nat.le_refl _
    · contradiction

end

/-! ### Replies -/

/-- The payload of an answer. -/
def payload : (r : Request) → r.Answer → List UInt8
  | .capacity, n => littleEndian 4 n
  | .read _, v => littleEndian 4 (UInt32.toNat v)
  | .transfer .., words => wordBytes words
  | .write .., _ | .start, _ | .stop, _ | .load _, _ => []

/-- The status that tells a peer why a request was not carried out. -/
def status : DeviceError → Nat
  | .addressOutOfRange _ => 1
  | .unknownChannel _ => 2
  | .transferOutOfRange .. => 3
  | .timeout _ => 4
  | _ => 5

/-- What a status says; it carries no details. -/
def ofStatus (status : Nat) : Except DeviceError Unit :=
  match status with
  | 0 => .ok ()
  | 1 => .error (.addressOutOfRange 0)
  | 2 => .error (.unknownChannel 0)
  | 3 => .error (.transferOutOfRange 0 0 0)
  | 4 => .error (.timeout 0)
  | n => .error (.protocol (.failure n))

/-- The bytes of a reply. -/
def reply (r : Request) : Except DeviceError r.Answer → List UInt8
  | .ok a => littleEndian 4 0 ++ payload r a
  | .error e => littleEndian 4 (status e)

end Bridge
end PulseProcessor
