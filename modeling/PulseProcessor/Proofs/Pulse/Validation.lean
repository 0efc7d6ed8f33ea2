import Mathlib.Data.List.Nodup
import PulseProcessor.Proofs.Assembly.Packing
import PulseProcessor.RegisterMap

/-! # Which register maps are accepted

Checking a register map goes through its entries with a list of the registers that are in use.
That list grows by what each entry names (`ChannelEntry.claim_eq_ok_iff`), and no register is in it
twice, so in the end the check has come down to what it is for: numbers are in range, no channel is
there twice, and no two parameters share a register (`RegisterMap.exists_ofRegisterMap_iff`).
-/

namespace PulseProcessor

/-- The register that holds a parameter. -/
def ChannelEntry.register? (e : ChannelEntry) (name : PulseRegister) : Option Register :=
  (e.registers name).map (⟨e.page, ·⟩)

/-- **What makes a register map valid.** -/
structure RegisterMap.Valid (m : RegisterMap) : Prop where
  pages : ∀ e ∈ m.channels, e.page.toNat < 8
  numbers : ∀ e ∈ m.channels, ∀ name number, e.registers name = some number →
    1 ≤ number.toNat ∧ number.toNat ≤ 31
  /-- No channel is there twice. -/
  channels : (m.channels.map (·.channel)).Nodup
  /-- A register is used for one parameter of one channel at most. -/
  unshared : ∀ e ∈ m.channels, ∀ e' ∈ m.channels, ∀ name name' r,
    e.register? name = some r → e'.register? name' = some r → e.channel = e'.channel ∧ name = name'
  widths : ∀ name width, m.widths name = some width → 1 ≤ width.toNat ∧ width.toNat ≤ 32

/-- The order of the channels does not matter. -/
theorem RegisterMap.Valid.perm {m m' : RegisterMap} (h : m.Valid)
    (hchannels : m.channels.Perm m'.channels) (hwidths : m.widths = m'.widths) : m'.Valid where
  pages e he := h.pages e (hchannels.mem_iff.2 he)
  numbers e he := h.numbers e (hchannels.mem_iff.2 he)
  channels := (hchannels.map _).nodup_iff.1 h.channels
  unshared e he e' he' := h.unshared e (hchannels.mem_iff.2 he) e' (hchannels.mem_iff.2 he')
  widths := hwidths ▸ h.widths

/-! ### Registers in use -/

namespace RegisterMap

/-- Nobody shares a register. -/
def Distinct (owners : Owners) : Prop := (owners.map (·.1)).Nodup

theorem mem_entries {α : Type} {t : PerRegister α} {name : PulseRegister} {v : α} :
    (name, v) ∈ entries t ↔ t name = some v := by
  rw [entries, List.mem_filterMap]
  constructor
  · rintro ⟨r, -, hr⟩
    obtain ⟨v', hv, heq⟩ := Option.map_eq_some_iff.1 hr
    cases heq
    exact hv
  · intro hv
    exact ⟨name, name.mem_all, by rw [hv]; rfl⟩

theorem nodup_entries {α : Type} (t : PerRegister α) : (entries t).Nodup := by
  refine List.Nodup.filterMap (fun r r' x hr hr' => ?_) (by decide)
  obtain ⟨v, -, rfl⟩ := Option.map_eq_some_iff.1 hr
  obtain ⟨v', -, heq⟩ := Option.map_eq_some_iff.1 hr'
  exact (congrArg Prod.fst heq).symm

end RegisterMap

open RegisterMap

/-- What parameters of an entry add to the owners. -/
def ChannelEntry.uses (e : ChannelEntry) (names : List (PulseRegister × UInt8)) : Owners :=
  names.map fun x => (⟨e.page, x.2⟩, e.channel, x.1)

variable {owners owners' : Owners} {e : ChannelEntry} {es : List ChannelEntry}

theorem find?_owner_eq_none_iff {r : Register} :
    owners.find? (·.1 == r) = none ↔ r ∉ owners.map (·.1) := by
  simp only [List.find?_eq_none, beq_iff_eq, List.mem_map, not_exists, not_and]

/-- What distinct owners have been put in front of is distinct as well. -/
theorem RegisterMap.Distinct.of_append (h : Distinct (owners ++ owners')) : Distinct owners' := by
  rw [Distinct, List.map_append] at h
  exact h.of_append_right

namespace ChannelEntry

/-- **A parameter is accepted** if its register exists, can be written, and is free. -/
theorem claim_cons_eq_ok_iff {name : PulseRegister} {number : UInt8}
    {names : List (PulseRegister × UInt8)} :
    e.claim owners ((name, number) :: names) = .ok owners' ↔
      (number ≠ 0 ∧ number.toNat < 32) ∧ (⟨e.page, number⟩ : Register) ∉ owners.map (·.1) ∧
        e.claim ((⟨e.page, number⟩, e.channel, name) :: owners) names = .ok owners' := by
  rw [claim]
  by_cases hbad : number = 0 ∨ number.toNat ≥ registersPerPage
  · rw [if_pos hbad]
    refine iff_of_false (by simp) fun ⟨⟨hzero, hlt⟩, _⟩ => ?_
    exact hbad.elim hzero (Nat.not_le.2 hlt)
  rw [if_neg hbad]
  have hgood : number ≠ 0 ∧ number.toNat < 32 :=
    ⟨fun h => hbad (.inl h), Nat.lt_of_not_le fun h => hbad (.inr h)⟩
  cases hfind : owners.find? (·.1 == (⟨e.page, number⟩ : Register)) with
  | some owner =>
    refine iff_of_false (by simp [hfind]) fun ⟨_, hfree, _⟩ => ?_
    rw [find?_owner_eq_none_iff.2 hfree] at hfind
    contradiction
  | none =>
    have hfree := find?_owner_eq_none_iff.1 hfind
    simp only [hfind]
    exact ⟨fun h => ⟨hgood, hfree, h⟩, fun h => h.2.2⟩

/-- **What is claimed** exists, can be written, belongs to nobody else, and is in use from then
on. -/
theorem claim_eq_ok_iff {names : List (PulseRegister × UInt8)} (howners : Distinct owners) :
    e.claim owners names = .ok owners' ↔
      (∀ x ∈ names, x.2 ≠ 0 ∧ x.2.toNat < 32) ∧ Distinct owners' ∧
        owners' = (e.uses names).reverse ++ owners := by
  induction names generalizing owners with
  | nil =>
    constructor
    · intro h
      cases h
      exact ⟨by simp, howners, rfl⟩
    · rintro ⟨-, -, rfl⟩
      rfl
  | cons x names ih =>
    obtain ⟨name, number⟩ := x
    have huses : (e.uses ((name, number) :: names)).reverse ++ owners =
        (e.uses names).reverse ++ (⟨e.page, number⟩, e.channel, name) :: owners := by
      simp [uses]
    rw [claim_cons_eq_ok_iff, huses, List.forall_mem_cons]
    constructor
    · rintro ⟨hnumber, hfree, h⟩
      have hnext : Distinct ((⟨e.page, number⟩, e.channel, name) :: owners) :=
        List.nodup_cons.2 ⟨hfree, howners⟩
      obtain ⟨hnumbers, hrest⟩ := (ih hnext).1 h
      exact ⟨⟨hnumber, hnumbers⟩, hrest⟩
    · rintro ⟨⟨hnumber, hnumbers⟩, hdistinct, rfl⟩
      have hfree := (List.nodup_cons.1 hdistinct.of_append).1
      exact ⟨hnumber, hfree, (ih hdistinct.of_append).2 ⟨hnumbers, hdistinct, rfl⟩⟩

end ChannelEntry

namespace RegisterMap

/-- What entries add to the owners. -/
def uses (es : List ChannelEntry) : Owners := es.flatMap fun e => e.uses (entries e.registers)

/-- **An entry is accepted** if its page exists, its channel is new, and its registers can be
claimed. -/
theorem checkEntries_cons_eq_ok_iff {seen : List UInt8} :
    checkEntries owners seen (e :: es) = .ok () ↔ e.page.toNat < 8 ∧ e.channel ∉ seen ∧
      ∃ owners', e.claim owners (entries e.registers) = .ok owners' ∧
        checkEntries owners' (e.channel :: seen) es = .ok () := by
  rw [checkEntries]
  by_cases hpage : e.page.toNat ≥ pageCount
  · rw [if_pos hpage]
    exact iff_of_false (by simp [throw, throwThe, MonadExceptOf.throw, bind, Except.bind])
      fun h => Nat.not_le.2 h.1 hpage
  rw [if_neg hpage]
  by_cases hseen : e.channel ∈ seen
  · refine iff_of_false (fun h => ?_) fun h => h.2.1 hseen
    obtain ⟨claimed, -, h⟩ := bind_eq_ok_iff.1 h
    rw [if_pos (List.contains_iff_mem.2 hseen)] at h
    contradiction
  · have hcontains : ¬ seen.contains e.channel := fun h => hseen (List.contains_iff_mem.1 h)
    refine Iff.trans bind_eq_ok_iff ?_
    simp only [if_neg hcontains]
    exact ⟨fun h => ⟨Nat.lt_of_not_le hpage, hseen, h⟩, fun h => h.2.2⟩

/-- **Entries are accepted** if their numbers are in range, and neither a channel nor a register is
there twice. -/
theorem checkEntries_eq_ok_iff {seen : List UInt8} (howners : Distinct owners)
    (hseen : seen.Nodup) : checkEntries owners seen es = .ok () ↔
      (∀ e ∈ es, e.page.toNat < 8 ∧ ∀ x ∈ entries e.registers, x.2 ≠ 0 ∧ x.2.toNat < 32) ∧
        ((es.map (·.channel)).reverse ++ seen).Nodup ∧ Distinct ((uses es).reverse ++ owners) := by
  induction es generalizing owners seen with
  | nil => exact iff_of_true rfl ⟨by simp, hseen, howners⟩
  | cons e es ih =>
    have huses : (uses (e :: es)).reverse ++ owners =
        (uses es).reverse ++ ((e.uses (entries e.registers)).reverse ++ owners) := by
      simp [uses]
    have hchannels : ((e :: es).map (·.channel)).reverse ++ seen =
        (es.map (·.channel)).reverse ++ e.channel :: seen := by
      simp
    rw [checkEntries_cons_eq_ok_iff, huses, hchannels, List.forall_mem_cons]
    constructor
    · rintro ⟨hpage, hnew, claimed, hclaim, h⟩
      obtain ⟨hnumbers, hdistinct, rfl⟩ := (ChannelEntry.claim_eq_ok_iff howners).1 hclaim
      obtain ⟨hall, hrest⟩ := (ih hdistinct (List.nodup_cons.2 ⟨hnew, hseen⟩)).1 h
      exact ⟨⟨⟨hpage, hnumbers⟩, hall⟩, hrest⟩
    · rintro ⟨⟨⟨hpage, hnumbers⟩, hall⟩, hnodup, hdistinct⟩
      have hclaimed := hdistinct.of_append
      have hseen' := hnodup.of_append_right
      exact ⟨hpage, (List.nodup_cons.1 hseen').1, _,
        (ChannelEntry.claim_eq_ok_iff howners).2 ⟨hnumbers, hclaimed, rfl⟩,
        (ih hclaimed hseen').2 ⟨hall, hnodup, hdistinct⟩⟩

theorem checkWidths_eq_ok_iff {widths : List (PulseRegister × UInt32)} :
    checkWidths widths = .ok () ↔ ∀ x ∈ widths, x.2 ≠ 0 ∧ x.2.toNat ≤ 32 := by
  induction widths with
  | nil => simp [checkWidths]
  | cons x widths ih =>
    obtain ⟨name, width⟩ := x
    rw [checkWidths, List.forall_mem_cons]
    by_cases hbad : width = 0 ∨ width.toNat > registerWidth
    · rw [if_pos hbad]
      exact iff_of_false (by simp) fun ⟨⟨hzero, hle⟩, _⟩ => hbad.elim hzero (Nat.not_lt.2 hle)
    · rw [if_neg hbad, ih]
      have hgood : width ≠ 0 ∧ width.toNat ≤ 32 :=
        ⟨fun h => hbad (.inl h), Nat.le_of_not_lt fun h => hbad (.inr h)⟩
      exact ⟨fun h => ⟨hgood, h⟩, fun h => h.2⟩

theorem mem_uses {r : Register} {ch : UInt8} {name : PulseRegister} :
    (r, ch, name) ∈ uses es ↔ ∃ e ∈ es, e.channel = ch ∧ e.register? name = some r := by
  rw [uses, List.mem_flatMap]
  refine exists_congr fun e => and_congr_right fun _ => ?_
  rw [ChannelEntry.uses, List.mem_map, ChannelEntry.register?, Option.map_eq_some_iff]
  constructor
  · rintro ⟨⟨name', number⟩, hmem, heq⟩
    cases heq
    exact ⟨rfl, number, mem_entries.1 hmem, rfl⟩
  · rintro ⟨rfl, number, hnumber, rfl⟩
    exact ⟨(name, number), mem_entries.2 hnumber, rfl⟩

/-- Without a channel twice, an owner is there once. -/
theorem nodup_uses (h : (es.map (·.channel)).Nodup) : (uses es).Nodup := by
  rw [uses, List.nodup_flatMap]
  constructor
  · intro e _
    refine (nodup_entries e.registers).map fun x x' hx => ?_
    simpa [Prod.ext_iff, and_comm] using hx
  · refine (List.pairwise_map.1 h).imp fun hne => List.disjoint_left.2 fun x hx hx' => ?_
    obtain ⟨_, -, rfl⟩ := List.mem_map.1 hx
    obtain ⟨_, -, heq⟩ := List.mem_map.1 hx'
    exact hne (congrArg (·.2.1) heq).symm

/-- **Nobody shares a register** if a register says whose it is. -/
theorem distinct_uses_iff (h : (es.map (·.channel)).Nodup) :
    Distinct (uses es) ↔ ∀ e ∈ es, ∀ e' ∈ es, ∀ name name' r, e.register? name = some r →
      e'.register? name' = some r → e.channel = e'.channel ∧ name = name' := by
  rw [Distinct, List.nodup_map_iff_inj_on (nodup_uses h)]
  constructor
  · intro hinj e he e' he' name name' r hr hr'
    have heq := hinj _ (mem_uses.2 ⟨e, he, rfl, hr⟩) _ (mem_uses.2 ⟨e', he', rfl, hr'⟩) rfl
    simpa using heq
  · rintro hsame ⟨r, ch, name⟩ hx ⟨_, ch', name'⟩ hx' rfl
    obtain ⟨e, he, rfl, hr⟩ := mem_uses.1 hx
    obtain ⟨e', he', rfl, hr'⟩ := mem_uses.1 hx'
    obtain ⟨hchannel, rfl⟩ := hsame e he e' he' name name' r hr hr'
    rw [hchannel]

end RegisterMap

/-! ### Whole maps -/

theorem number_in_range_iff (n : UInt8) :
    n ≠ 0 ∧ n.toNat < 32 ↔ 1 ≤ n.toNat ∧ n.toNat ≤ 31 := by
  rw [ne_eq, ← UInt8.toNat_inj, UInt8.toNat_zero]
  omega

theorem width_in_range_iff (n : UInt32) :
    n ≠ 0 ∧ n.toNat ≤ 32 ↔ 1 ≤ n.toNat ∧ n.toNat ≤ 32 := by
  rw [ne_eq, ← UInt32.toNat_inj, UInt32.toNat_zero]
  omega

namespace ChannelMap

theorem ofRegisterMap_eq_ok_iff {m : RegisterMap} {map : ChannelMap} :
    ofRegisterMap m = .ok map ↔ checkEntries [] [] m.channels = .ok () ∧
      checkWidths (RegisterMap.entries m.widths) = .ok () ∧ ⟨m.channels, m.widths⟩ = map := by
  simp only [ofRegisterMap, map_eq_ok_iff, mapError_eq_ok_iff, bind_eq_ok_iff]
  constructor
  · rintro ⟨_, ⟨_, hentries, hwidths⟩, hmap⟩
    exact ⟨hentries, hwidths, hmap⟩
  · rintro ⟨hentries, hwidths, hmap⟩
    exact ⟨(), ⟨(), hentries, hwidths⟩, hmap⟩

/-- **Accepted are the maps that are valid.** -/
theorem exists_ofRegisterMap_iff {m : RegisterMap} :
    (∃ map, ofRegisterMap m = .ok map) ↔ m.Valid := by
  have hempty : Distinct [] := List.nodup_nil
  have hdistinct : Distinct (uses m.channels).reverse ↔ Distinct (uses m.channels) := by
    rw [Distinct, List.map_reverse, List.nodup_reverse, Distinct]
  simp only [ofRegisterMap_eq_ok_iff, exists_and_left, exists_eq', and_true,
    checkEntries_eq_ok_iff hempty List.nodup_nil, checkWidths_eq_ok_iff, List.append_nil,
    List.nodup_reverse, hdistinct, number_in_range_iff, width_in_range_iff,
    Prod.forall, mem_entries]
  constructor
  · rintro ⟨⟨hentries, hchannels, hregisters⟩, hwidths⟩
    exact {
      pages := fun e he => (hentries e he).1
      numbers := fun e he => (hentries e he).2
      channels := hchannels
      unshared := (distinct_uses_iff hchannels).1 hregisters
      widths := hwidths }
  · intro h
    exact ⟨⟨fun e he => ⟨h.pages e he, h.numbers e he⟩, h.channels,
      (distinct_uses_iff h.channels).2 h.unshared⟩, h.widths⟩

end ChannelMap
end PulseProcessor
