import PulseProcessor.Proofs.Assembly.Stability

/-! # Reservations

A register that has been reserved stays live, and every sweep that needs it is refused, for as long
as the body lasts in which it has been reserved; at the top level, that is for good
(`SweepGenerator.InPlace.reservation_lasts`).  Whatever is done in the meantime only adds to the
live registers at their end, and a sweep takes its registers before it does anything else.

When the sweep around that body is closed, the reservation is gone (`live_sweep`).  The list of live
registers is then cut to the length that it had when the sweep was opened, and a reservation made
inside lies behind that like the registers of the loop itself.
-/

namespace PulseProcessor
namespace SweepGenerator

open Edit (outcome settled)
open Program (Constructs Holder)

variable {g g' g'' : SweepGenerator} {r : Register} {owner : String}

/-! ### Refusals -/

/-- Nothing but a collision keeps registers from being taken. -/
theorem reserve_eq_error {e : AssemblyError} (h : g.reserve r owner = .error e) :
    ∃ holder, e = .registerCollision r holder := by
  unfold SweepGenerator.reserve at h
  split at h
  · cases h
    exact ⟨_, rfl⟩
  · split at h
    · cases h
      exact ⟨_, rfl⟩
    · cases h

theorem reserveAll_eq_error {e : AssemblyError} {rs : List Register}
    (h : g.reserveAll owner rs = .error e) :
    ∃ r ∈ rs, ∃ holder, e = .registerCollision r holder := by
  induction rs generalizing g with
  | nil => cases h
  | cons r rs ih =>
    rw [SweepGenerator.reserveAll] at h
    cases hr : g.reserve r owner with
    | error e' =>
      rw [hr] at h
      cases h
      obtain ⟨holder, rfl⟩ := reserve_eq_error hr
      exact ⟨r, List.mem_cons_self .., holder, rfl⟩
    | ok g₁ =>
      rw [hr] at h
      obtain ⟨r', hr', holder, rfl⟩ := ih h
      exact ⟨r', List.mem_cons_of_mem r hr', holder, rfl⟩

/-- Registers of which one is live cannot be taken together. -/
theorem reserveAll_of_mem_live {rs : List Register} (hr : r ∈ rs) (hlive : r ∈ g.liveRegisters)
    (owner : String) :
    ∃ r' ∈ rs, ∃ holder, g.reserveAll owner rs = .error (.registerCollision r' holder) := by
  cases h : g.reserveAll owner rs with
  | ok g' =>
    obtain ⟨hfree, -⟩ := reserveAll_eq_ok h
    exact absurd hlive (hfree r hr).2
  | error e =>
    obtain ⟨r', hr', holder, rfl⟩ := reserveAll_eq_error h
    exact ⟨r', hr', holder, rfl⟩

theorem Extends.mem_liveRegisters (h : g.Extends g') (hr : r ∈ g.liveRegisters) :
    r ∈ g'.liveRegisters :=
  (h.live.map _).subset hr

namespace InPlace

/-- **How a sweep is refused**, whatever its body is, and leaves the generator as it was. -/
def Refuses (g : SweepGenerator) (s : Sweep) : Prop :=
  ∀ body : Edit SweepGenerator Unit,
    if s.count = 0 then
      outcome (sweep s body) g = (.error (.invalidSweepCount s.name s.count), g)
    else ∃ r ∈ s.owned, ∃ holder,
      outcome (sweep s body) g = (.error (.registerCollision r holder), g)

theorem refuses_of_mem_live {s : Sweep} (hr : r ∈ s.owned) (hlive : r ∈ g.liveRegisters) :
    Refuses g s := by
  intro body
  by_cases hcount : s.count = 0
  · rw [if_pos hcount, InPlace.sweep, if_pos hcount]
    rfl
  · rw [if_neg hcount]
    obtain ⟨r', hr', holder, hfails⟩ := reserveAll_of_mem_live hr hlive s.name
    have hreserve := outcome_reserveAll s.name s.owned (Nat.le_refl g.live.length)
    rw [List.take_length, hfails] at hreserve
    refine ⟨r', hr', holder, ?_⟩
    rw [InPlace.sweep, if_neg hcount]
    show outcome (get >>= _) g = _
    rw [Edit.outcome_bind_of_ok (Edit.outcome_get g)]
    exact Edit.outcome_bind_of_error hreserve

/-! ### States on the way -/

/-- **What a generator passes through** while something is done to it: what it is before and after
that, and before and after each part of it, in the bodies of its sweeps as well. -/
inductive Passes : {α : Type} → Edit SweepGenerator α → SweepGenerator → SweepGenerator → Prop
  | before {α : Type} (e : Edit SweepGenerator α) (g : SweepGenerator) : Passes e g g
  | after {α : Type} {e : Edit SweepGenerator α} (he : Constructs .generator e)
      (g : SweepGenerator) : Passes e g (outcome e g).2
  | first {α β : Type} {e : Edit SweepGenerator α} {g g' : SweepGenerator} (h : Passes e g g')
      (f : α → Edit SweepGenerator β) : Passes (e >>= f) g g'
  | next {α β : Type} {e : Edit SweepGenerator α} {f : α → Edit SweepGenerator β}
      {g g₁ g' : SweepGenerator} {a : α} (he : Constructs .generator e)
      (houtcome : outcome e g = (.ok a, g₁)) (h : Passes (f a) g₁ g') : Passes (e >>= f) g g'
  | attempt {α : Type} {e : Edit SweepGenerator α} {g g' : SweepGenerator} (h : Passes e g g') :
      Passes e.attempt g g'
  | body {body : Edit SweepGenerator Unit} {s : Sweep} {g inner g' : SweepGenerator}
      (henter : g.enter s = .ok inner) (h : Passes body inner g') : Passes (sweep s body) g g'

/-- Nothing that happens on the way takes away what was there before. -/
theorem Passes.extends {α : Type} {e : Edit SweepGenerator α} (h : Passes e g g') :
    g.Extends g' := by
  induction h with
  | before e g => exact .refl g
  | after he g => exact he.keeps g
  | first _ f ih => exact ih
  | @next _ _ _ _ g _ _ _ he houtcome _ ih =>
    have hfirst := he.keeps g
    rw [houtcome] at hfirst
    exact hfirst.trans ih
  | attempt _ ih => exact ih
  | body henter _ ih => exact (extends_enter henter).trans ih

/-! ### How long a reservation lasts -/

theorem mem_live_of_reserve (h : outcome (reserve r owner) g = (.ok (), g')) :
    r ∈ g'.liveRegisters := by
  rw [outcome_reserve] at h
  cases hr : g.reserve r owner with
  | error e =>
    rw [hr] at h
    cases h
  | ok taken =>
    rw [hr] at h
    cases h
    obtain ⟨-, -, -, hlive⟩ := reserve_eq_ok hr
    rw [hlive]
    exact List.mem_append_right _ (List.mem_singleton_self r)

/-- **A reservation lasts as long as the body in which it is made.**  Let `e` be all that comes
after it there; if it is made outside all sweeps, `e` is whatever is ever done to the generator.
Through all of that the register is live, and a sweep of which it is the counter or a swept register
is refused. -/
theorem reservation_lasts {α : Type} {e : Edit SweepGenerator α}
    (hreserve : outcome (reserve r owner) g = (.ok (), g')) (hpasses : Passes e g' g'') :
    r ∈ g''.liveRegisters ∧ ∀ s : Sweep, r ∈ s.owned → Refuses g'' s := by
  have hlive : r ∈ g''.liveRegisters :=
    hpasses.extends.mem_liveRegisters (mem_live_of_reserve hreserve)
  exact ⟨hlive, fun s hs => refuses_of_mem_live hs hlive⟩

/-- A register is reserved for good.  A sweep over it is refused, and so is one in the body of a
sweep that follows, where another register has been reserved meanwhile. -/
theorem reservation_lasts_scratch :
    let scratch : Register := ⟨0, 5⟩
    let across : Sweep := { name := "ACROSS", count := 3, counter := ⟨0, 1⟩
                            registers := [{ register := scratch, start := 0, step := 1 }] }
    let outer : Sweep := { name := "OUTER", count := 2, counter := ⟨0, 14⟩ }
    let e : Edit SweepGenerator Unit := do
      let _ ← (sweep across (pure ())).attempt
      sweep outer (reserve ⟨0, 6⟩ "loop")
    let reserved : SweepGenerator := { live := [(scratch, "scratch")] }
    outcome (reserve scratch "scratch") {} = (.ok (), reserved) ∧
      ∃ inside, Passes e reserved inside ∧ inside.liveRegisters = [scratch, ⟨0, 14⟩, ⟨0, 6⟩] ∧
        scratch ∈ inside.liveRegisters ∧ Refuses inside across := by
  intro scratch across outer e reserved
  have hreserve : outcome (reserve scratch "scratch") {} = (.ok (), reserved) := rfl
  have henter : ∃ inner, reserved.enter outer = .ok inner ∧
      (outcome (reserve ⟨0, 6⟩ "loop") inner).2.liveRegisters = [scratch, ⟨0, 14⟩, ⟨0, 6⟩] :=
    exists_ok (by decide +kernel)
  obtain ⟨inner, henter, hlive⟩ := henter
  have hrefused : outcome (sweep across (pure ())).attempt reserved =
      (.ok (.error (.registerCollision scratch "scratch")), reserved) := by decide +kernel
  have hpasses : Passes e reserved (outcome (reserve ⟨0, 6⟩ "loop") inner).2 :=
    .next (.attempt (.sweep (.pure ()) across)) hrefused (.body henter (.after (.reserve ..) inner))
  obtain ⟨hmem, hrefuses⟩ := reservation_lasts hreserve hpasses
  exact ⟨hreserve, _, hpasses, hlive, hmem, hrefuses across (by decide)⟩

/-- **A sweep leaves the live registers as they were**, whatever comes of it. -/
theorem live_sweep {body : Edit SweepGenerator Unit} (hbody : Constructs .generator body)
    (s : Sweep) (g : SweepGenerator) : (outcome (sweep s body) g).2.live = g.live := by
  rw [outcome_sweep hbody.keeps, run_sweep]
  cases g.enter s with
  | error e => rfl
  | ok inner =>
    show (settled g (Except.map _ (Except.map _ (body.success inner)))).2.live = g.live
    cases body.success inner <;> rfl

/-- A reservation made in the body of a sweep succeeds, and so does the sweep.  Then the register is
free, and a later sweep may count in it. -/
theorem reservation_ends_with_body :
    let scratch : Register := ⟨0, 5⟩
    let outer : Sweep := { name := "outer", count := 2, counter := ⟨0, 14⟩ }
    let later : Sweep := { name := "later", count := 3, counter := scratch }
    (∃ inner, ({} : SweepGenerator).enter outer = .ok inner ∧
        (outcome (reserve scratch "scratch") inner).1 = .ok ()) ∧
      (outcome (sweep outer (reserve scratch "scratch")) {}).1 = .ok () ∧
      (outcome (sweep outer (reserve scratch "scratch")) {}).2.liveRegisters = [] ∧
      (outcome (do sweep outer (reserve scratch "scratch"); sweep later (pure ())) {}).1 =
        .ok () := by
  intro scratch outer later
  exact ⟨exists_ok (by decide +kernel), by decide +kernel, by decide +kernel, by decide +kernel⟩

end InPlace
end SweepGenerator
end PulseProcessor
