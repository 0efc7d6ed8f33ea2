import PulseProcessor.Proofs.Emulator.Machine
import PulseProcessor.Proofs.Pulse.Validation

/-! # Registers of checked maps

A map that has been accepted gives every parameter the register that was supplied for it
(`ChannelMap.register_eq_ok_iff`), and since the supplied map is valid, one of its own that exists
and can be written (`ChannelMap.Sound`).
-/

namespace PulseProcessor
namespace ChannelMap

variable {map : ChannelMap} {ch ch' : UInt8} {name name' : PulseRegister} {r : Register}

theorem entry_eq_ok {e : ChannelEntry} (h : map.entry ch = .ok e) :
    e ∈ map.entries ∧ e.channel = ch := by
  unfold entry at h
  split at h
  · rename_i e' hfind
    cases h
    exact ⟨List.mem_of_find?_eq_some hfind, by simpa using List.find?_some hfind⟩
  · contradiction

theorem register_eq_ok (h : map.register ch name = .ok r) :
    ∃ e, map.entry ch = .ok e ∧ e.registers name = some r.number ∧ e.page = r.page := by
  obtain ⟨e, he, h⟩ := bind_eq_ok_iff.1 h
  split at h
  · rename_i number hnumber
    cases h
    exact ⟨e, he, hnumber, rfl⟩
  · contradiction

/-- All registers of a channel are on its page. -/
theorem page_eq (h : map.register ch name = .ok r) : map.page ch = .ok r.page := by
  obtain ⟨e, he, -, hpage⟩ := register_eq_ok h
  rw [page, he, ← hpage]
  rfl

/-- **Every parameter has a register of its own**, one that exists and can be written. -/
structure Sound (map : ChannelMap) : Prop where
  valid : ∀ {ch name r}, map.register ch name = .ok r → r.Valid
  injective : ∀ {ch ch' name name' r}, map.register ch name = .ok r →
    map.register ch' name' = .ok r → ch = ch' ∧ name = name'
  width_pos : ∀ name, 0 < map.width name
  width_le : ∀ name, map.width name ≤ 32

/-! ### Accepted maps -/

variable {m : RegisterMap}

/-- Checking leaves a map as it is. -/
theorem eq_of_ofRegisterMap (h : ofRegisterMap m = .ok map) : map = ⟨m.channels, m.widths⟩ :=
  (ofRegisterMap_eq_ok_iff.1 h).2.2.symm

theorem valid_of_ofRegisterMap (h : ofRegisterMap m = .ok map) : m.Valid :=
  exists_ofRegisterMap_iff.1 ⟨map, h⟩

/-- The entry that is found for a channel is the only one it has. -/
theorem entry_of_mem (h : ofRegisterMap m = .ok map) {e : ChannelEntry} (he : e ∈ m.channels) :
    map.entry e.channel = .ok e := by
  obtain rfl := eq_of_ofRegisterMap h
  unfold entry
  cases hfind : m.channels.find? (·.channel == e.channel) with
  | none => simpa using List.find?_eq_none.1 hfind e he
  | some e' =>
    have hchannel : e'.channel = e.channel := by simpa using List.find?_some hfind
    have hsame := List.inj_on_of_nodup_map (valid_of_ofRegisterMap h).channels
      (List.mem_of_find?_eq_some hfind) he hchannel
    simp only [hsame]

/-- **The register of a parameter is the one that was supplied.** -/
theorem register_eq_ok_iff (h : ofRegisterMap m = .ok map) :
    map.register ch name = .ok r ↔
      ∃ e ∈ m.channels, e.channel = ch ∧ e.register? name = some r := by
  constructor
  · intro hr
    obtain ⟨e, he, hnumber, hpage⟩ := register_eq_ok hr
    obtain ⟨hmem, hchannel⟩ := entry_eq_ok he
    rw [eq_of_ofRegisterMap h] at hmem
    refine ⟨e, hmem, hchannel, ?_⟩
    rw [ChannelEntry.register?, hnumber, hpage]
    rfl
  · rintro ⟨e, he, rfl, hr⟩
    obtain ⟨number, hnumber, rfl⟩ := Option.map_eq_some_iff.1 hr
    refine bind_eq_ok_iff.2 ⟨e, entry_of_mem h he, ?_⟩
    rw [hnumber]
    rfl

theorem width_in_range (h : ofRegisterMap m = .ok map) (name : PulseRegister) :
    1 ≤ map.width name ∧ map.width name ≤ 32 := by
  obtain rfl := eq_of_ofRegisterMap h
  cases hname : m.widths name with
  | none => simp [width, hname, registerWidth]
  | some w => simpa [width, hname] using (valid_of_ofRegisterMap h).widths name w hname

/-- **Maps that have been checked are sound.** -/
theorem sound_of_ofRegisterMap (h : ofRegisterMap m = .ok map) : map.Sound where
  valid hr := by
    obtain ⟨e, he, -, hr⟩ := (register_eq_ok_iff h).1 hr
    obtain ⟨number, hnumber, rfl⟩ := Option.map_eq_some_iff.1 hr
    have hvalid := valid_of_ofRegisterMap h
    obtain ⟨hzero, hlt⟩ := (number_in_range_iff number).2 (hvalid.numbers e he _ number hnumber)
    exact ⟨hvalid.pages e he, hlt, hzero⟩
  injective hr hr' := by
    obtain ⟨e, he, rfl, hregister⟩ := (register_eq_ok_iff h).1 hr
    obtain ⟨e', he', rfl, hregister'⟩ := (register_eq_ok_iff h).1 hr'
    exact (valid_of_ofRegisterMap h).unshared e he e' he' _ _ _ hregister hregister'
  width_pos name := (width_in_range h name).1
  width_le name := (width_in_range h name).2

/-- **What checking comes to** for a register map that is supplied. -/
structure Exact (m : RegisterMap) : Prop where
  /-- Valid maps are accepted, and no others. -/
  accepted : (∃ map, ofRegisterMap m = .ok map) ↔ m.Valid
  /-- In which order the channels are makes no difference to that. -/
  unordered : ∀ m' : RegisterMap, m'.channels.Perm m.channels → m'.widths = m.widths →
    ((∃ map, ofRegisterMap m' = .ok map) ↔ ∃ map, ofRegisterMap m = .ok map)
  /-- An accepted map has just the registers that were supplied. -/
  supplied : ∀ map, ofRegisterMap m = .ok map → ∀ ch name r,
    map.register ch name = .ok r ↔ ∃ e ∈ m.channels, e.channel = ch ∧ e.register? name = some r
  /-- No two parameters have the same one. -/
  injective : ∀ map, ofRegisterMap m = .ok map → ∀ ch ch' name name' r,
    map.register ch name = .ok r → map.register ch' name' = .ok r → ch = ch' ∧ name = name'

/-- **The check of register maps is exact, and rules out aliasing.** -/
theorem ofRegisterMap_exact (m : RegisterMap) : Exact m where
  accepted := exists_ofRegisterMap_iff
  unordered m' hchannels hwidths := by
    rw [exists_ofRegisterMap_iff, exists_ofRegisterMap_iff]
    exact ⟨fun h => h.perm hchannels hwidths, fun h => h.perm hchannels.symm hwidths.symm⟩
  supplied _ h _ _ _ := register_eq_ok_iff h
  injective _ h _ _ _ _ _ hr hr' := (sound_of_ofRegisterMap h).injective hr hr'

end ChannelMap
end PulseProcessor
