import PulseProcessor.Proofs.Assembly.History
import PulseProcessor.Proofs.Emulator.Code
import PulseProcessor.Proofs.Sweep.Reservation

/-! # Who owns registers

A generator keeps one flat list of live registers.  It adds to that list one register at a time, and
when a loop is closed or undone it cuts the list to the length it had before.  What is meant by it
is a nest: there are open loops, one inside of another, and reservations in their bodies, and each
of them owns registers.

`InPlace.Reaches` follows a run of a generator and keeps account of the owners apart from the list:
a loop is added to them when it is opened and a reservation when it is granted, and a sweep that is
over is taken off with all that has been added in its body.  In every state of the run the list has
on it what the owners have, no register twice and no register 0.  So what an accepted sweep writes
around its body computes in registers that are its own and nobody else's
(`InPlace.sweeps_write_own`), and leaves those of all others as they are when it is executed.
-/

namespace PulseProcessor

/-! ### Edits of a generator -/

namespace Program

open SweepGenerator.InPlace (onProgram reserve sweep)

/-- Only its program decides whether a state goes on where another one ends. -/
def Holder.ProgramOnly {σ : Type} (H : Holder σ) : Prop :=
  ∀ s t, (H.program s).Extends (H.program t) → H.Extends s t

/-- A generator may have fewer live registers than another one with the same program. -/
theorem Holder.not_programOnly_generator : ¬ Holder.generator.ProgramOnly := fun h =>
  absurd (h { live := [(⟨0, 1⟩, "")] } {} (.refl _)).live (by decide)

theorem Holder.ne_generator {σ : Type} {H : Holder σ} (h : H.ProgramOnly) :
    (⟨σ, H⟩ : Sigma Holder) ≠ ⟨SweepGenerator, .generator⟩ := fun hsame =>
  Holder.not_programOnly_generator
    ((congrArg (fun K : Sigma Holder => K.2.ProgramOnly) hsame).mp h)

/-- **Induction over the edits of a generator.**  What is done to its program is one step, whatever
that is built from. -/
theorem generator_induction {motive : {α : Type} → Edit SweepGenerator α → Prop}
    (pure : ∀ {α : Type} (a : α), motive (pure a))
    (throw : ∀ {α : Type} (e : AssemblyError), motive (throw e : Edit SweepGenerator α))
    (get : motive get)
    (bind : ∀ {α β : Type} {e : Edit SweepGenerator α} {f : α → Edit SweepGenerator β},
      motive e → (∀ a, motive (f a)) → motive (e >>= f))
    (attempt : ∀ {α : Type} {e : Edit SweepGenerator α}, motive e → motive e.attempt)
    (reserve : ∀ r owner, motive (reserve r owner))
    (sweep : ∀ {body : Edit SweepGenerator Unit}, Constructs .generator body → motive body →
      ∀ s, motive (sweep s body))
    (onProgram : ∀ {α : Type} (e : Edit Program α), motive (onProgram e))
    {α : Type} {e : Edit SweepGenerator α} (he : Constructs .generator e) : motive e := by
  -- The induction goes over the edits of all holders; those of others than a generator drop out
  -- because their holders decide by the program only.
  have hall {σ α : Type} {H : Holder σ} {e : Edit σ α} (he : Constructs H e)
      (hH : (⟨σ, H⟩ : Sigma Holder) = ⟨SweepGenerator, .generator⟩) :
      ∀ e' : Edit SweepGenerator α, HEq e e' → motive e' := by
    induction he with
    | pure a =>
      cases hH
      rintro _ ⟨⟩
      exact pure a
    | throw err =>
      cases hH
      rintro _ ⟨⟩
      exact throw err
    | get =>
      cases hH
      rintro _ ⟨⟩
      exact get
    | bind _ _ ihe ihf =>
      cases hH
      rintro _ ⟨⟩
      exact bind (ihe rfl _ .rfl) fun a => ihf a rfl _ .rfl
    | attempt _ ih =>
      cases hH
      rintro _ ⟨⟩
      exact attempt (ih rfl _ .rfl)
    | append | loadConstant | defineLabel | sequencer | generator =>
      exact absurd hH (Holder.ne_generator fun _ _ h => h)
    | perform | onSequencer => exact absurd hH (Holder.ne_generator fun _ _ h => h)
    | reserve r owner =>
      rintro _ ⟨⟩
      exact reserve r owner
    | sweep hbody s ih =>
      rintro _ ⟨⟩
      exact sweep hbody (ih rfl _ .rfl) s
    | onGenerator =>
      rintro _ ⟨⟩
      exact onProgram _
  exact hall he rfl e .rfl

end Program

namespace SweepGenerator

open Edit (outcome)
open Program (AddsOnly Constructs outcome_sweep_refused outcome_sweep_undone outcome_sweep_closed)

variable {g g' inner inner' : SweepGenerator} {s : Sweep} {r : Register}
  {rs : List Register} {owner : String}

/-! ### The list of live registers -/

/-- **Live registers are different, and none of them is register 0.** -/
structure Orderly (g : SweepGenerator) : Prop where
  distinct : g.liveRegisters.Nodup
  nonzero : ∀ r ∈ g.liveRegisters, r.number ≠ 0

namespace Orderly

theorem of_live_eq (hg : g.Orderly) (h : g'.live = g.live) : g'.Orderly := by
  have hsame : g'.liveRegisters = g.liveRegisters := by rw [liveRegisters, h, liveRegisters]
  exact ⟨hsame ▸ hg.distinct, hsame ▸ hg.nonzero⟩

/-- Free registers may come along. -/
theorem of_append (hg : g.Orderly) (hlive : g'.liveRegisters = g.liveRegisters ++ rs)
    (hfree : ∀ r ∈ rs, r.number ≠ 0 ∧ r ∉ g.liveRegisters) (hnodup : rs.Nodup) : g'.Orderly where
  distinct := by
    rw [hlive]
    exact hg.distinct.append hnodup fun r hmem hr => (hfree r hr).2 hmem
  nonzero r hr := by
    rw [hlive, List.mem_append] at hr
    exact hr.elim (hg.nonzero r) fun hr => (hfree r hr).1

theorem reserve (hg : g.Orderly) (h : g.reserve r owner = .ok g') : g'.Orderly := by
  obtain ⟨hzero, hfree, -, hlive⟩ := reserve_eq_ok h
  refine hg.of_append hlive (fun r' hr' => ?_) (List.nodup_singleton r)
  obtain rfl := List.mem_singleton.1 hr'
  exact ⟨hzero, hfree⟩

theorem reserveAll (hg : g.Orderly) (h : g.reserveAll owner rs = .ok g') : g'.Orderly := by
  obtain ⟨hfree, hnodup, -, hlive⟩ := reserveAll_eq_ok h
  exact hg.of_append hlive hfree hnodup

theorem enter (hg : g.Orderly) (h : g.enter s = .ok inner) : inner.Orderly := by
  obtain ⟨-, hfree, hnodup, hlive, -⟩ := enter_eq_ok h
  exact hg.of_append hlive hfree hnodup

end Orderly

namespace InPlace

/-! ### Owners -/

/-- **Somebody who owns registers.** -/
inductive Owner where
  /-- A sweep whose loop is open. -/
  | loop (s : Sweep)
  /-- A reservation; or a sweep that has taken a register, but not all it needs. -/
  | holder (r : Register) (name : String)

namespace Owner

/-- The registers of an owner, with the owner's name. -/
def live : Owner → List (Register × String)
  | loop s => s.owned.map (·, s.name)
  | holder r name => [(r, name)]

def registers (o : Owner) : List Register := o.live.map (·.1)

@[simp] theorem registers_loop (s : Sweep) : (loop s).registers = s.owned := by
  simp [registers, live, Function.comp_def]

@[simp] theorem registers_holder (r : Register) (name : String) : (holder r name).registers = [r] :=
  rfl

theorem flatMap_live_holders (rs : List Register) (name : String) :
    (rs.map (holder · name)).flatMap live = rs.map (·, name) := by
  rw [List.flatMap_map, List.map_eq_flatMap]
  rfl

end Owner

/-- **The owners that an edit leaves behind** when it is over, whatever comes of it.  A reservation
is in force until the sweep is over in whose body it has been made, and outside of all sweeps for
good.  So a sweep leaves nothing behind, be it closed, undone or refused. -/
inductive Leaves : {α : Type} → Edit SweepGenerator α → SweepGenerator → List Owner → Prop
  | pure {α : Type} (a : α) (g : SweepGenerator) : Leaves (pure a) g []
  | throw {α : Type} (e : AssemblyError) (g : SweepGenerator) :
      Leaves (throw e : Edit SweepGenerator α) g []
  | get (g : SweepGenerator) : Leaves get g []
  | onProgram {α : Type} (e : Edit Program α) (g : SweepGenerator) : Leaves (onProgram e) g []
  | reserve {r : Register} {owner : String} {g g' : SweepGenerator}
      (succeeds : g.reserve r owner = .ok g') : Leaves (reserve r owner) g [.holder r owner]
  | refused {r : Register} {owner : String} {g : SweepGenerator} {err : AssemblyError}
      (fails : g.reserve r owner = .error err) : Leaves (reserve r owner) g []
  | sweep {body : Edit SweepGenerator Unit} (hbody : Constructs .generator body) (s : Sweep)
      (g : SweepGenerator) : Leaves (sweep s body) g []
  | bind {α β : Type} {e : Edit SweepGenerator α} {f : α → Edit SweepGenerator β}
      {g g' : SweepGenerator} {a : α} {os os' : List Owner} (first : Leaves e g os)
      (succeeds : outcome e g = (.ok a, g')) (rest : Leaves (f a) g' os') :
      Leaves (e >>= f) g (os ++ os')
  | stop {α β : Type} {e : Edit SweepGenerator α} {g g' : SweepGenerator} {err : AssemblyError}
      {os : List Owner} (first : Leaves e g os) (fails : outcome e g = (.error err, g'))
      (f : α → Edit SweepGenerator β) : Leaves (e >>= f) g os
  | attempt {α : Type} {e : Edit SweepGenerator α} {g : SweepGenerator} {os : List Owner}
      (h : Leaves e g os) : Leaves e.attempt g os

/-- **What a generator passes through** while something is done to it, and which owners there are
then besides those of before.  A sweep owns its registers as long as its body lasts; while it is
opened it has got some of them. -/
inductive Reaches : {α : Type} → Edit SweepGenerator α → SweepGenerator → List Owner →
    SweepGenerator → Prop
  | before {α : Type} (e : Edit SweepGenerator α) (g : SweepGenerator) : Reaches e g [] g
  | after {α : Type} {e : Edit SweepGenerator α} {g : SweepGenerator} {os : List Owner}
      (h : Leaves e g os) : Reaches e g os (outcome e g).2
  | first {α β : Type} {e : Edit SweepGenerator α} {g g' : SweepGenerator} {os : List Owner}
      (h : Reaches e g os g') (f : α → Edit SweepGenerator β) : Reaches (e >>= f) g os g'
  | next {α β : Type} {e : Edit SweepGenerator α} {f : α → Edit SweepGenerator β}
      {g g₁ g' : SweepGenerator} {a : α} {os os' : List Owner} (he : Leaves e g os)
      (succeeds : outcome e g = (.ok a, g₁)) (h : Reaches (f a) g₁ os' g') :
      Reaches (e >>= f) g (os ++ os') g'
  | attempt {α : Type} {e : Edit SweepGenerator α} {g g' : SweepGenerator} {os : List Owner}
      (h : Reaches e g os g') : Reaches e.attempt g os g'
  | taking {s : Sweep} {g g' : SweepGenerator} {taken rest : List Register} (hcount : s.count ≠ 0)
      (hsplit : s.owned = taken ++ rest) (htaken : g.reserveAll s.name taken = .ok g')
      (body : Edit SweepGenerator Unit) :
      Reaches (sweep s body) g (taken.map (.holder · s.name)) g'
  | body {body : Edit SweepGenerator Unit} {s : Sweep} {g inner g' : SweepGenerator}
      {os : List Owner} (opens : g.enter s = .ok inner) (h : Reaches body inner os g') :
      Reaches (sweep s body) g (.loop s :: os) g'

/-- **Every edit leaves some owners behind**, or none. -/
theorem exists_leaves {α : Type} {e : Edit SweepGenerator α} (he : Constructs .generator e)
    (g : SweepGenerator) : ∃ os, Leaves e g os := by
  refine Program.generator_induction (motive := fun e => ∀ g, ∃ os, Leaves e g os)
    (fun a g => ⟨_, .pure a g⟩) (fun err g => ⟨_, .throw err g⟩) (fun g => ⟨_, .get g⟩) ?bind
    (fun ih g => (ih g).imp fun _ => .attempt) ?reserve
    (fun hbody _ s g => ⟨_, .sweep hbody s g⟩) (fun e g => ⟨_, .onProgram e g⟩) he g
  case bind =>
    intro α β e f ihe ihf g
    obtain ⟨os, hfirst⟩ := ihe g
    rcases houtcome : outcome e g with ⟨err | a, g'⟩
    · exact ⟨os, .stop hfirst houtcome f⟩
    · obtain ⟨os', hrest⟩ := ihf a g'
      exact ⟨os ++ os', .bind hfirst houtcome hrest⟩
  case reserve =>
    intro r owner g
    cases hreserve : g.reserve r owner with
    | error err => exact ⟨_, .refused hreserve⟩
    | ok g' => exact ⟨_, .reserve hreserve⟩

/-- Of all states that a generator passes through there is account. -/
theorem Passes.exists_reaches {α : Type} {e : Edit SweepGenerator α} (h : Passes e g g') :
    ∃ os, Reaches e g os g' := by
  induction h with
  | before e g => exact ⟨[], .before e g⟩
  | after he g =>
    obtain ⟨os, hend⟩ := exists_leaves he g
    exact ⟨os, .after hend⟩
  | first _ f ih => exact ih.imp fun _ h => h.first f
  | @next _ _ _ _ g _ _ _ he houtcome _ ih =>
    obtain ⟨os, hfirst⟩ := exists_leaves he g
    obtain ⟨os', hrest⟩ := ih
    exact ⟨os ++ os', .next hfirst houtcome hrest⟩
  | attempt _ ih => exact ih.imp fun _ h => h.attempt
  | body henter _ ih =>
    obtain ⟨os, hinside⟩ := ih
    exact ⟨_, .body henter hinside⟩

/-! ### What owners have, and what is live -/

section
variable {α : Type} {e : Edit SweepGenerator α} {os os' : List Owner}

theorem outcome_reserve_ok (h : g.reserve r owner = .ok g') :
    outcome (reserve r owner) g = (.ok (), g') := by
  rw [outcome_reserve, h]
  rfl

theorem outcome_reserve_error {err : AssemblyError} (h : g.reserve r owner = .error err) :
    outcome (reserve r owner) g = (.error err, g) := by
  rw [outcome_reserve, h]
  rfl

theorem Leaves.live (h : Leaves e g os) :
    (outcome e g).2.live = g.live ++ os.flatMap Owner.live := by
  induction h with
  | pure | throw | get | onProgram => exact (List.append_nil _).symm
  | reserve succeeds =>
    rw [outcome_reserve_ok succeeds]
    exact live_of_reserve succeeds
  | refused fails =>
    rw [outcome_reserve_error fails]
    exact (List.append_nil _).symm
  | sweep hbody s g =>
    rw [live_sweep hbody]
    exact (List.append_nil _).symm
  | bind _ succeeds _ ihfirst ihrest =>
    rw [succeeds] at ihfirst
    rw [Edit.outcome_bind_of_ok succeeds, ihrest, ihfirst, List.flatMap_append, List.append_assoc]
  | stop _ fails f ih =>
    rw [fails] at ih
    rwa [Edit.outcome_bind_of_error fails]
  | attempt _ ih => exact ih

/-- **On the list there is what the owners have**, in the order in which they came. -/
theorem Reaches.live (h : Reaches e g os g') : g'.live = g.live ++ os.flatMap Owner.live := by
  induction h with
  | before => exact (List.append_nil _).symm
  | after h => exact h.live
  | first _ f ih => exact ih
  | next he succeeds _ ih =>
    have hfirst := he.live
    rw [succeeds] at hfirst
    rw [ih, hfirst, List.flatMap_append, List.append_assoc]
  | attempt _ ih => exact ih
  | taking hcount hsplit htaken body =>
    rw [live_of_reserveAll htaken, Owner.flatMap_live_holders]
  | body opens _ ih =>
    rw [ih, live_of_enter opens, List.append_assoc]
    rfl

theorem Leaves.orderly (h : Leaves e g os) (hg : g.Orderly) : (outcome e g).2.Orderly := by
  induction h with
  | pure | throw | get => exact hg
  | onProgram => exact hg.of_live_eq rfl
  | reserve succeeds =>
    rw [outcome_reserve_ok succeeds]
    exact hg.reserve succeeds
  | refused fails =>
    rw [outcome_reserve_error fails]
    exact hg
  | sweep hbody s g => exact hg.of_live_eq (live_sweep hbody s g)
  | bind _ succeeds _ ihfirst ihrest =>
    have hmid := ihfirst hg
    rw [succeeds] at hmid
    rw [Edit.outcome_bind_of_ok succeeds]
    exact ihrest hmid
  | stop _ fails f ih =>
    have hend := ih hg
    rw [fails] at hend
    rwa [Edit.outcome_bind_of_error fails]
  | attempt _ ih => exact ih hg

/-- **Nothing that happens puts a register on the list twice, or a register 0.** -/
theorem Reaches.orderly (h : Reaches e g os g') (hg : g.Orderly) : g'.Orderly := by
  induction h with
  | before => exact hg
  | after h => exact h.orderly hg
  | first _ f ih => exact ih hg
  | next he succeeds _ ih =>
    have hmid := he.orderly hg
    rw [succeeds] at hmid
    exact ih hmid
  | attempt _ ih => exact ih hg
  | taking hcount hsplit htaken body => exact hg.reserveAll htaken
  | body opens _ ih => exact ih (hg.enter opens)

end

/-! ### Accepted sweeps -/

section
variable {α : Type} {e : Edit SweepGenerator α} {body : Edit SweepGenerator Unit}
  {os os' : List Owner}

/-- A sweep that is accepted has been opened, and closed behind its body. -/
theorem exists_of_sweep_ok (hbody : Constructs .generator body)
    (h : outcome (sweep s body) g = (.ok (), g')) :
    ∃ inner inner', g.enter s = .ok inner ∧ outcome body inner = (.ok (), inner') ∧
      g' = inner'.leave g s := by
  cases hopens : g.enter s with
  | error err =>
    rw [outcome_sweep_refused hbody hopens] at h
    cases h
  | ok inner =>
    rcases houtcome : outcome body inner with ⟨err | ⟨⟩, inner'⟩
    · rw [outcome_sweep_undone hbody hopens houtcome] at h
      cases h
    · rw [outcome_sweep_closed hbody hopens houtcome] at h
      cases h
      exact ⟨inner, inner', rfl, houtcome, rfl⟩

/-- Whoever owns a register has it on the list. -/
theorem Owner.mem_liveRegisters {o : Owner} (hlive : g.live = os.flatMap Owner.live) (ho : o ∈ os)
    (hr : r ∈ o.registers) : r ∈ g.liveRegisters := by
  obtain ⟨entry, hentry, rfl⟩ := List.mem_map.1 hr
  rw [liveRegisters, hlive]
  exact List.mem_map_of_mem (List.mem_flatMap_of_mem ho hentry)

/-- Owners that a body leaves behind have got their registers while the loop has had its own. -/
theorem Leaves.disjoint_owned (h : Leaves body inner os) (hg : g.Orderly)
    (hopens : g.enter s = .ok inner) : ∀ o ∈ os, o.registers.Disjoint s.owned := by
  obtain ⟨-, -, -, hlive, -⟩ := enter_eq_ok hopens
  have hend := (h.orderly (hg.enter hopens)).distinct
  rw [liveRegisters, h.live, List.map_append] at hend
  intro o ho r hr hown
  have hmem : r ∈ inner.liveRegisters := by
    rw [hlive]
    exact List.mem_append_right _ hown
  obtain ⟨entry, hentry, rfl⟩ := List.mem_map.1 hr
  exact List.disjoint_of_nodup_append hend hmem
    (List.mem_map_of_mem (List.mem_flatMap_of_mem ho hentry))

/-- **What a sweep writes around its body**: the code between `g` and `inner` when its loop is
opened, and the code between `inner'` and `g'` when it is closed.  The owners `os` are there all the
time, and `os'` are those that the body leaves behind. -/
structure Skeleton (s : Sweep) (os os' : List Owner) (g inner inner' g' : SweepGenerator) :
    Prop where
  /-- The counter is not swept, and no register is swept twice. -/
  distinct : s.owned.Nodup
  /-- No other owner has one of the registers when the loop is opened. -/
  free : ∀ o ∈ os, o.registers.Disjoint s.owned
  /-- No other owner has got one of them until it is closed. -/
  kept : ∀ o ∈ os', o.registers.Disjoint s.owned
  opening : AddsOnly (·.Writes s.owned) g.program inner.program
  body : inner.program.Extends inner'.program
  closing : AddsOnly (·.Writes s.owned) inner'.program g'.program
  /-- Executed in a program that has the loop in it, the code leaves all other registers alone. -/
  frame : ∀ q ws, g'.program.Extends q → q.encode = .ok ws → ∀ m m' : Machine,
    (g.program.size ≤ m.pc ∧ m.pc < inner.program.size) ∨
      (inner'.program.size ≤ m.pc ∧ m.pc < g'.program.size) →
    m.next? ws.toArray = some m' → ∀ r : Register, r.Valid → r ∉ s.owned → m'.get r = m.get r

theorem skeleton_of_enter (hg : g.Orderly) (hlive : g.live = os.flatMap Owner.live)
    (hbody : Constructs .generator body) (hopens : g.enter s = .ok inner)
    (hleaves : Leaves body inner os') (houtcome : outcome body inner = (.ok (), inner')) :
    Skeleton s os os' g inner inner' (inner'.leave g s) := by
  obtain ⟨-, hfree, hdistinct, -, hlabel⟩ := enter_eq_ok hopens
  have hopening : AddsOnly (·.Writes s.owned) g.program inner.program :=
    (addsOnly_loaded g.program s).trans (.of_defineLabel hlabel)
  have hmiddle := (hbody.keeps inner).program
  rw [houtcome] at hmiddle
  have hclosing := addsOnly_leave inner' g s
  refine ⟨hdistinct, ?_, hleaves.disjoint_owned hg hopens, hopening, hmiddle, hclosing, ?_⟩
  · intro o ho r hr hown
    exact (hfree r hown).2 (Owner.mem_liveRegisters hlive ho hr)
  · intro q ws hq hws m m' hplace hnext r hr hother
    rcases hplace with ⟨hlo, hhi⟩ | ⟨hlo, hhi⟩
    · exact hopening.get_next? (hmiddle.trans (hclosing.toExtends.trans hq)) hws hlo hhi hnext hr
        hother
    · exact hclosing.get_next? hq hws hlo hhi hnext hr hother

/-- **A generator and the owners of its live registers.** -/
structure Owned (os : List Owner) (g : SweepGenerator) : Prop extends g.Orderly where
  /-- The list has on it what the owners have. -/
  live : g.live = os.flatMap Owner.live
  /-- A sweep that is accepted writes registers of its own. -/
  accepted : ∀ s body g', Constructs .generator body → outcome (sweep s body) g = (.ok (), g') →
    ∃ inner inner' os', g.enter s = .ok inner ∧ Leaves body inner os' ∧
      outcome body inner = (.ok (), inner') ∧ g' = inner'.leave g s ∧
        Skeleton s os os' g inner inner' g'

/-- **Sweeps write registers of their own.**  Whatever is done with a new generator, in every state
it passes through no register is live twice and register 0 never, live are the registers of open
loops and of reservations, and a sweep that is accepted there writes nothing around its body but
registers that it owns alone. -/
theorem sweeps_write_own (e : Edit SweepGenerator α) (p : Program) :
    (∀ g, Passes e { program := p } g → ∃ os, Reaches e { program := p } os g) ∧
      ∀ os g, Reaches e { program := p } os g → Owned os g := by
  refine ⟨fun _ => Passes.exists_reaches, fun os g hreaches => ?_⟩
  have horderly : g.Orderly := hreaches.orderly ⟨List.nodup_nil, fun _ hr => by cases hr⟩
  have hlive : g.live = os.flatMap Owner.live := hreaches.live
  refine ⟨horderly, hlive, fun s body g' hbody haccepted => ?_⟩
  obtain ⟨inner, inner', hopens, houtcome, rfl⟩ := exists_of_sweep_ok hbody haccepted
  obtain ⟨os', hleaves⟩ := exists_leaves hbody inner
  exact ⟨inner, inner', os', hopens, hleaves, houtcome, rfl,
    skeleton_of_enter horderly hlive hbody hopens hleaves houtcome⟩

/-- A register is reserved, and a sweep over it is refused.  In the body of another sweep one more
is reserved, and a sweep over a third one is accepted.  It loads its two registers, and steps one
and counts down in the other. -/
theorem sweeps_write_own_nested :
    let scratch : Register := ⟨0, 5⟩
    let across : Sweep := { name := "ACROSS", count := 3, counter := ⟨0, 1⟩
                            registers := [{ register := scratch, start := 0, step := 1 }] }
    let outer : Sweep := { name := "OUTER", count := 3, counter := ⟨0, 1⟩ }
    let gain : SweptRegister := { register := ⟨1, 5⟩, start := 9, step := 2, width := 31 }
    let gains : Sweep := { name := "GAINS", count := 4, counter := ⟨0, 2⟩, registers := [gain] }
    let e : Edit SweepGenerator Unit := do
      reserve scratch "scratch"
      let _ ← (sweep across (pure ())).attempt
      sweep outer do
        reserve ⟨0, 6⟩ "loop"
        sweep gains (reserve ⟨0, 7⟩ "gain")
    let g : SweepGenerator :=
      { program := { statements := #[⟨.regwi 0 1 2, some "OUTER: 3 iterations"⟩]
                     labels := #[("OUTER", 1)] }
        live := [(scratch, "scratch"), (⟨0, 1⟩, "OUTER"), (⟨0, 6⟩, "loop")] }
    let os : List Owner := [.holder scratch "scratch", .loop outer, .holder ⟨0, 6⟩ "loop"]
    Constructs .generator e ∧ Reaches e {} os g ∧ ∃ inner inner' os',
      outcome (sweep gains (reserve ⟨0, 7⟩ "gain")) g = (.ok (), inner'.leave g gains) ∧
        Skeleton gains os os' g inner inner' (inner'.leave g gains) ∧
        g.program.added inner.program = [.regwi 1 5 9, .regwi 0 2 3] ∧
        inner'.program.added (inner'.leave g gains).program = [.mathi 1 5 5 (.known .add) 2,
          .bitwi 1 5 5 (.known .shl) 1, .bitwi 1 5 5 (.known .shr) 1, .loopnz 0 2 "GAINS"] := by
  intro scratch across outer gain gains e g os
  have hbody : Constructs .generator (reserve ⟨0, 7⟩ "gain") := .reserve ..
  have he : Constructs .generator e :=
    .bind (.reserve ..) fun _ => .bind (.attempt (.sweep (.pure ()) across)) fun _ =>
      .sweep (.bind (.reserve ..) fun _ => .sweep hbody gains) outer
  let reserved : SweepGenerator := { live := [(scratch, "scratch")] }
  let opened : SweepGenerator := { g with live := [(scratch, "scratch"), (⟨0, 1⟩, "OUTER")] }
  have hrefused : outcome (sweep across (pure ())).attempt reserved =
      (.ok (.error (.registerCollision scratch "scratch")), reserved) := by decide +kernel
  have hopens : reserved.enter outer = .ok opened := by decide +kernel
  have hscratch : ({} : SweepGenerator).reserve scratch "scratch" = .ok reserved := rfl
  have hloop : opened.reserve ⟨0, 6⟩ "loop" = .ok g := rfl
  have hreaches : Reaches e {} os g :=
    .next (.reserve hscratch) rfl <|
      .next (.attempt (.sweep (.pure ()) across reserved)) hrefused <|
        .body hopens (.next (.reserve hloop) rfl (.before _ g))
  have haccepted : (outcome (sweep gains (reserve ⟨0, 7⟩ "gain")) g).1 = .ok () := by
    decide +kernel
  have hwritten : ∃ inner, g.enter gains = .ok inner ∧
      g.program.added inner.program = [.regwi 1 5 9, .regwi 0 2 3] ∧
      let inner' := (outcome (reserve ⟨0, 7⟩ "gain") inner).2
      inner'.program.added (inner'.leave g gains).program = [.mathi 1 5 5 (.known .add) 2,
        .bitwi 1 5 5 (.known .shl) 1, .bitwi 1 5 5 (.known .shr) 1, .loopnz 0 2 "GAINS"] :=
    exists_ok (by decide +kernel)
  obtain ⟨-, howned⟩ := sweeps_write_own e {}
  obtain ⟨inner, inner', os', henter, -, houtcome, hclosed, hskeleton⟩ :=
    (howned os g hreaches).accepted gains _ _ hbody (Prod.ext haccepted rfl)
  obtain ⟨inner₁, henter₁, hopening, hclosing⟩ := hwritten
  rw [henter, Except.ok.injEq] at henter₁
  subst henter₁
  rw [houtcome] at hclosing
  rw [hclosed] at hskeleton
  exact ⟨he, hreaches, inner, inner', os', Prod.ext haccepted hclosed, hskeleton, hopening,
    hclosing⟩

end
end InPlace
end SweepGenerator
end PulseProcessor
