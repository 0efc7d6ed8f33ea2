import PulseProcessor.Assembly.Error
import PulseProcessor.Json.Printer
import PulseProcessor.Json.Record

/-!
# Register maps

Which registers hold the pulse parameters of each output channel differs from board to board, so
it is configuration. A `RegisterMap` is what a board's layer supplies; a `ChannelMap` is one that
has been checked: pages, register numbers and widths are in range, no channel is listed twice, and
no two parameters share a register.
-/

namespace PulseProcessor

/-- Values for some of the pulse parameters. -/
abbrev PerRegister (α : Type) := PulseRegister → Option α

/-- The row of one channel. -/
structure ChannelEntry where
  channel : UInt8
  page : UInt8
  /-- Register numbers on the page. -/
  registers : PerRegister UInt8

/-- A register map as it is supplied. -/
structure RegisterMap where
  channels : List ChannelEntry
  /-- Bits that each parameter uses, where it is not the whole register. -/
  widths : PerRegister UInt32

namespace RegisterMap

/-- A table as a function; of several entries with one name the last counts. -/
def ofEntries {α : Type} (entries : List (PulseRegister × α)) : PerRegister α := fun r =>
  (entries.reverse.find? (·.1 == r)).map (·.2)

/-- The entries of a table, in the order of the parameters. -/
def entries {α : Type} (t : PerRegister α) : List (PulseRegister × α) :=
  PulseRegister.all.filterMap fun r => (t r).map (r, ·)

/-- The map of the first firmware: channels one to seven, two to a page, the odd one of a pair in
registers 16 to 22 and the even one in registers 23 to 29. -/
def standard : RegisterMap where
  channels := (List.range 7).map fun i =>
    let base := if i % 2 = 0 then 16 else 23
    { channel := UInt8.ofNat (i + 1)
      page := UInt8.ofNat (i / 2)
      registers := ofEntries <|
        PulseRegister.all.zipIdx.map fun (r, k) => (r, UInt8.ofNat (base + k)) }
  widths := ofEntries [(.freq, 32), (.phase, 16), (.gain, 16), (.adcFreq, 16)]

/-! ### As JSON -/

def entryOfJson? (j : Json) : Option ChannelEntry := do
  let [channel, page, registers] ← j.record? ["channel", "page", "registers"] | none
  return {
    channel := ← Json.required channel Json.byte?
    page := ← Json.required page Json.byte?
    registers := ofEntries
      (← Json.required registers (Json.table? PulseRegister.ofName? Json.byte?)) }

def ofJson? (j : Json) : Option RegisterMap := do
  let [channels, widths] ← j.record? ["channels", "widths"] | none
  let entries ← Json.required channels Json.array?
  return {
    channels := ← entries.mapM entryOfJson?
    widths := ofEntries
      (← Json.optional widths [] (Json.table? PulseRegister.ofName? Json.word32?)) }

def ofText (text : String) : Except AssemblyError RegisterMap :=
  (Json.decode ofJson? text).mapError fun e => .invalidRegisterMap (.unreadable e)

/-- A table as a JSON object, in the order of the parameters. -/
def tableToJson {α : Type} (value : α → Json) (t : PerRegister α) : Json :=
  .object ((entries t).map fun (r, v) => (r.name, value v))

def toJson (m : RegisterMap) : Json :=
  let entry (e : ChannelEntry) : Json := .object [
    ("channel", .integer e.channel.toNat),
    ("page", .integer e.page.toNat),
    ("registers", tableToJson (fun n => .integer n.toNat) e.registers)]
  .object [
    ("channels", .array (m.channels.map entry)),
    ("widths", tableToJson (fun w => .integer w.toNat) m.widths)]

/-- The map as indented JSON text. -/
def text (m : RegisterMap) : String := m.toJson.pretty

end RegisterMap

/-! ### Checking -/

/-- The registers in use, each with the channel and parameter that uses it. -/
abbrev Owners := List (Register × UInt8 × PulseRegister)

namespace ChannelEntry

/-- Takes registers of the entry into use, in the order of the parameters. -/
def claim (e : ChannelEntry) (owners : Owners) : List (PulseRegister × UInt8) →
    Except MapFault Owners
  | [] => .ok owners
  | (name, number) :: rest =>
    if number = 0 ∨ number.toNat ≥ registersPerPage then .error (.number e.channel name number)
    else
      let register : Register := ⟨e.page, number⟩
      match owners.find? (·.1 == register) with
      | some (_, channel, other) => .error (.shared register channel other e.channel name)
      | none => e.claim ((register, e.channel, name) :: owners) rest

end ChannelEntry

namespace RegisterMap

/-- Checks entries against the registers in use and the channels seen so far. -/
def checkEntries (owners : Owners) (seen : List UInt8) : List ChannelEntry → Except MapFault Unit
  | [] => .ok ()
  | e :: rest => do
    if e.page.toNat ≥ pageCount then throw (.page e.channel e.page)
    let owners ← e.claim owners (entries e.registers)
    if seen.contains e.channel then throw (.channelTwice e.channel)
    checkEntries owners (e.channel :: seen) rest

/-- Checks widths, in the order of the parameters. -/
def checkWidths : List (PulseRegister × UInt32) → Except MapFault Unit
  | [] => .ok ()
  | (name, width) :: rest =>
    if width = 0 ∨ width.toNat > registerWidth then .error (.width name width)
    else checkWidths rest

end RegisterMap

/-- A register map that has been checked. -/
structure ChannelMap where
  entries : List ChannelEntry
  widths : PerRegister UInt32

namespace ChannelMap

/-- Checks a register map: first the entries in their order, then the widths. -/
def ofRegisterMap (m : RegisterMap) : Except AssemblyError ChannelMap :=
  let check : Except MapFault Unit := do
    RegisterMap.checkEntries [] [] m.channels
    RegisterMap.checkWidths (RegisterMap.entries m.widths)
  (check.mapError .invalidRegisterMap).map fun _ => ⟨m.channels, m.widths⟩

def entry (m : ChannelMap) (channel : UInt8) : Except AssemblyError ChannelEntry :=
  match m.entries.find? (·.channel == channel) with
  | some e => .ok e
  | none => .error (.unknownChannel channel)

/-- The register of a channel's parameter. -/
def register (m : ChannelMap) (channel : UInt8) (name : PulseRegister) :
    Except AssemblyError Register := do
  let e ← m.entry channel
  match e.registers name with
  | some number => return ⟨e.page, number⟩
  | none => throw (.unknownPulseRegister channel name)

/-- The page of a channel. -/
def page (m : ChannelMap) (channel : UInt8) : Except AssemblyError UInt8 :=
  (m.entry channel).map (·.page)

/-- Bits that a parameter uses. -/
def width (m : ChannelMap) (name : PulseRegister) : Nat :=
  ((m.widths name).map UInt32.toNat).getD registerWidth

/-- The channels, in ascending order. -/
def channels (m : ChannelMap) : List UInt8 :=
  (m.entries.map (·.channel)).mergeSort (fun a b => a ≤ b)

end ChannelMap
end PulseProcessor
