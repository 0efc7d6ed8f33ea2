import PulseProcessor.Proofs.Assembly.InPlace
import PulseProcessor.Proofs.Sweep.Nest
import PulseProcessor.Sweep.InPlace

/-! # A failed sweep leaves no trace

A sweep that is generated in place does what a sweep on values does, and a failed one leaves
everything as it was (`outcome_sweep`), provided that its body does not take away what was there
before it.  Bodies do not if they are built from the operations of programs and generators, sweeps
in them included, whether an error ends them or is passed over (`Built.keeps`).

So there are two things to see about a body.  What it adds to program, labels and live registers it
adds at the ends, whatever comes of it; that is why cutting them to their lengths is enough.  And a
sweep, be it successful or not, does so as well; that is why a body may contain others.
-/

namespace PulseProcessor
namespace SweepGenerator

open Edit (outcome settled Keeps)
open Program.InPlace (append loadConstant defineLabel)

/-- **One generator goes on where another one ends.** -/
structure Extends (g g' : SweepGenerator) : Prop where
  program : g.program.Extends g'.program
  live : g.live <+: g'.live

variable {g g' g'' inner : SweepGenerator} {s : Sweep}

theorem Extends.refl (g : SweepGenerator) : g.Extends g := ⟨.refl _, List.prefix_rfl⟩

theorem Extends.trans (h : g.Extends g') (h' : g'.Extends g'') : g.Extends g'' :=
  ⟨h.program.trans h'.program, h.live.trans h'.live⟩

/-- Cut to the length that it had, the list of live registers is what it was. -/
theorem Extends.take_live (h : g.Extends g') : g'.live.take g.live.length = g.live := by
  obtain ⟨later, hlater⟩ := h.live
  rw [← hlater, List.take_left]

theorem extends_reserve {r : Register} {owner : String} (h : g.reserve r owner = .ok g') :
    g.Extends g' := by
  obtain ⟨-, -, hprogram, -⟩ := reserve_eq_ok h
  exact ⟨hprogram ▸ .refl _, live_of_reserve h ▸ List.prefix_append ..⟩

theorem extends_reserveAll {owner : String} {rs : List Register}
    (h : g.reserveAll owner rs = .ok g') : g.Extends g' := by
  obtain ⟨-, -, hprogram, -⟩ := reserveAll_eq_ok h
  exact ⟨hprogram ▸ .refl _, live_of_reserveAll h ▸ List.prefix_append ..⟩

theorem enter_eq (h : s.count ≠ 0) : g.enter s =
    (g.reserveAll s.name s.owned).bind fun taken =>
      ((loaded taken.program s).defineLabel s.name).map fun program => { taken with program } := by
  rw [enter, if_neg h]
  rfl

theorem live_of_enter (h : g.enter s = .ok inner) :
    inner.live = g.live ++ s.owned.map (·, s.name) := by
  obtain ⟨hcount, -⟩ := enter_eq_ok h
  rw [enter_eq hcount] at h
  obtain ⟨taken, htaken, h⟩ := bind_eq_ok_iff.1 h
  obtain ⟨program, -, rfl⟩ := map_eq_ok_iff.1 h
  exact (live_of_reserveAll htaken :)

theorem extends_enter (h : g.enter s = .ok inner) : g.Extends inner :=
  ⟨(grows_enter h).extends, live_of_enter h ▸ List.prefix_append ..⟩

theorem extends_leave (h : g.program.Extends inner.program) : g.Extends (inner.leave g s) :=
  ⟨h.trans (inner.grows_leave g s).extends, List.prefix_rfl⟩

namespace InPlace

/-! ### The parts of a sweep -/

@[simp] theorem outcome_onProgram {α : Type} (e : Edit Program α) (g : SweepGenerator) :
    outcome (onProgram e) g =
      ((outcome e g.program).1, { g with program := (outcome e g.program).2 }) := rfl

theorem outcome_reserve (r : Register) (owner : String) (g : SweepGenerator) :
    outcome (reserve r owner) g = settled g ((g.reserve r owner).map ((), ·)) := by
  unfold InPlace.reserve SweepGenerator.reserve
  by_cases hzero : r.number = 0
  · simp [hzero, settled, Except.map]
  · cases hfind : g.live.find? (·.1 == r) with
    | none => simp [hzero, hfind, Edit.outcome_bind, settled, Except.map]
    | some entry => simp [hzero, hfind, Edit.outcome_bind, settled, Except.map]

theorem outcome_truncate (mark : Nat) (g : SweepGenerator) :
    outcome (truncate mark) g = (.ok (), { g with live := g.live.take mark }) := rfl

/-- Registers that have been taken before one cannot be had are given back. -/
theorem outcome_reserveAll (owner : String) {mark : Nat} (rs : List Register)
    (hmark : mark ≤ g.live.length) :
    outcome (reserveAll owner mark rs) g =
      settled { g with live := g.live.take mark } ((g.reserveAll owner rs).map ((), ·)) := by
  induction rs generalizing g with
  | nil => rfl
  | cons r rs ih =>
    rw [InPlace.reserveAll, SweepGenerator.reserveAll, Edit.outcome_bind, Edit.outcome_attempt,
      outcome_reserve]
    cases hr : g.reserve r owner with
    | error e => rfl
    | ok g₁ =>
      have hlive := (extends_reserve hr).live
      have hmark' : mark ≤ g₁.live.length := Nat.le_trans hmark hlive.length_le
      have htake : g₁.live.take mark = g.live.take mark := by
        obtain ⟨later, hlater⟩ := hlive
        rw [← hlater, List.take_append_of_le_length hmark]
      have hprogram : g₁.program = g.program := (reserve_eq_ok hr).2.2.1
      have hgo := ih hmark'
      rw [htake, hprogram] at hgo
      exact hgo

theorem outcome_preload (name : String) (r : SweptRegister) (p : Program) :
    outcome (preload name r) p = (.ok (), SweepGenerator.preload name p r) := by
  simp [InPlace.preload, SweepGenerator.preload, Except.map]

theorem outcome_advance (r : SweptRegister) (p : Program) :
    outcome (advance r) p = (.ok (), SweepGenerator.advance p r) := by
  unfold InPlace.advance SweepGenerator.advance
  by_cases hfull : r.width ≥ registerWidth
  · simp [hfull, Except.map]
  · by_cases hlong : r.width = 31
    · simp [hlong, Edit.outcome_bind, Except.map, registerWidth]
    · simp [hfull, hlong, Edit.outcome_bind, Except.map]

theorem outcome_load (s : Sweep) (p : Program) :
    outcome (load s) p = (.ok (), loaded p s) := by
  rw [load, Edit.outcome_bind_of_ok (Edit.outcome_forM (outcome_preload s.name) s.registers p)]
  simp [Except.map, loaded]

theorem outcome_close (s : Sweep) (p : Program) :
    outcome (close s) p = (.ok (), (s.registers.foldl SweepGenerator.advance p).append
      (.loopnz s.counter.page s.counter.number s.name)) := by
  rw [close, Edit.outcome_bind_of_ok (Edit.outcome_forM outcome_advance s.registers p)]
  simp [Except.map]

/-- Label and body, one after the other. -/
theorem outcome_labelled (body : Edit SweepGenerator Unit) (name : String) (g : SweepGenerator) :
    outcome (do onProgram (defineLabel name); body) g =
      match g.program.defineLabel name with
      | .ok program => outcome body { g with program }
      | .error e => (.error e, g) := by
  rw [Edit.outcome_bind, outcome_onProgram, Program.InPlace.outcome_defineLabel]
  cases g.program.defineLabel name <;> rfl

/-- A loop that is closed has stepped its registers, and freed them. -/
theorem outcome_leave_ok (h : g.live <+: inner.live) :
    outcome (leave s g.live.length g.program.checkpoint (.ok ())) inner =
      (.ok (), inner.leave g s) := by
  obtain ⟨later, hlater⟩ := h
  have htake : inner.live.take g.live.length = g.live := by rw [← hlater, List.take_left]
  rw [InPlace.leave, Edit.outcome_bind_of_ok (outcome_truncate ..), outcome_onProgram,
    outcome_close, htake]
  rfl

/-- **A loop that is undone has not been there.** -/
theorem outcome_leave_error (h : g.Extends inner) (e : AssemblyError) :
    outcome (leave s g.live.length g.program.checkpoint (.error e)) inner = (.error e, g) := by
  rw [InPlace.leave, Edit.outcome_bind_of_ok (outcome_truncate ..),
    Edit.outcome_bind_of_ok (Edit.outcome_modify ..), h.take_live, h.program.rollback]
  rfl

/-! ### A sweep -/

/-- **A sweep in place does what a sweep does**, and if it fails it leaves the generator as it was,
provided that its body only adds to what it finds. -/
theorem outcome_sweep {body : Edit SweepGenerator Unit} (hbody : Keeps Extends body) (s : Sweep)
    (g : SweepGenerator) : outcome (sweep s body) g =
      settled g ((Id.run (g.sweep s fun inner => ExceptT.mk (body.success inner)).run).map
        ((), ·)) := by
  rw [run_sweep, InPlace.sweep]
  by_cases hcount : s.count = 0
  · rw [if_pos hcount, enter, if_pos hcount]
    rfl
  · rw [if_neg hcount, enter_eq hcount, Edit.outcome_bind_of_ok (Edit.outcome_get g)]
    dsimp only
    have hreserve := outcome_reserveAll s.name s.owned (Nat.le_refl g.live.length)
    rw [List.take_length] at hreserve
    cases htaken : g.reserveAll s.name s.owned with
    | error e =>
      rw [htaken] at hreserve
      exact Edit.outcome_bind_of_error hreserve
    | ok taken =>
      rw [htaken] at hreserve
      have hload : outcome (onProgram (load s)) taken =
          (.ok (), { taken with program := loaded taken.program s }) := by
        rw [outcome_onProgram, outcome_load]
      have hloaded : g.Extends { taken with program := loaded taken.program s } :=
        (extends_reserveAll htaken).trans
          ⟨(grows_loaded taken.program s).extends, List.prefix_rfl⟩
      rw [Edit.outcome_bind_of_ok hreserve, Edit.outcome_bind_of_ok hload,
        Edit.outcome_bind_of_ok (Edit.outcome_attempt ..), outcome_labelled]
      cases hlabel : (loaded taken.program s).defineLabel s.name with
      | error e =>
        simp only [Except.bind, hlabel]
        exact outcome_leave_error hloaded e
      | ok program =>
        have hinner : g.Extends { taken with program } :=
          hloaded.trans ⟨Program.extends_defineLabel hlabel, List.prefix_rfl⟩
        have hinner' := hinner.trans (hbody { taken with program })
        simp only [Except.bind, hlabel, Except.map, Edit.success]
        rcases houtcome : outcome body { taken with program } with ⟨answer, inner'⟩
        rw [houtcome] at hinner'
        cases answer with
        | error e => exact outcome_leave_error hinner' e
        | ok _ => exact outcome_leave_ok hinner'.live

/-- A sweep adds to a generator, too. -/
theorem keeps_sweep {body : Edit SweepGenerator Unit} (hbody : Keeps Extends body) (s : Sweep) :
    Keeps Extends (sweep s body) := by
  refine Keeps.of_settled Extends.refl (outcome_sweep hbody s) fun g _ g' hg' => ?_
  obtain ⟨after, hafter, heq⟩ := map_eq_ok_iff.1 hg'
  cases heq
  rw [run_sweep] at hafter
  obtain ⟨inner, henter, hafter⟩ := bind_eq_ok_iff.1 hafter
  obtain ⟨inner', hsuccess, rfl⟩ := map_eq_ok_iff.1 hafter
  obtain ⟨-, -, rfl⟩ := map_eq_ok_iff.1 hsuccess
  exact extends_leave ((extends_enter henter).trans (hbody inner)).program

/-! ### Bodies -/

/-- **What a body may be**: anything that is built from operations on the program, reservations and
sweeps.  It may look at the generator, act on what it sees, fail on its own account, and pass over
an error. -/
inductive Built : {α : Type} → Edit SweepGenerator α → Prop
  | pure {α : Type} (a : α) : Built (pure a)
  | throw {α : Type} (e : AssemblyError) : Built (throw e : Edit SweepGenerator α)
  | get : Built get
  | append (i : Instruction) (comment : Option String) : Built (onProgram (append i comment))
  | loadConstant (page reg : UInt8) (v : Int) (comment : Option String) :
      Built (onProgram (loadConstant page reg v comment))
  | defineLabel (name : String) : Built (onProgram (defineLabel name))
  | reserve (r : Register) (owner : String) : Built (reserve r owner)
  | sweep {body : Edit SweepGenerator Unit} (hbody : Built body) (s : Sweep) :
      Built (sweep s body)
  | bind {α β : Type} {e : Edit SweepGenerator α} {f : α → Edit SweepGenerator β} (he : Built e)
      (hf : ∀ a, Built (f a)) : Built (e >>= f)
  | attempt {α : Type} {e : Edit SweepGenerator α} (he : Built e) : Built e.attempt

/-- **Whatever a body does and whatever comes of it**, it adds at the ends. -/
theorem Built.keeps {α : Type} {e : Edit SweepGenerator α} (h : Built e) : Keeps Extends e := by
  induction h with
  | pure a => exact .of_eq Extends.refl fun _ => rfl
  | throw e => exact .of_eq Extends.refl fun _ => rfl
  | get => exact .of_eq Extends.refl fun _ => rfl
  | append i comment => exact fun g => ⟨Program.extends_append .., List.prefix_rfl⟩
  | loadConstant page reg v comment =>
    intro g
    rw [outcome_onProgram, Program.InPlace.outcome_loadConstant]
    exact ⟨(Program.Grows.of_loadConstant ..).extends, List.prefix_rfl⟩
  | defineLabel name =>
    intro g
    rw [outcome_onProgram, Program.InPlace.outcome_defineLabel]
    cases hlabel : g.program.defineLabel name with
    | error e => exact .refl g
    | ok program => exact ⟨Program.extends_defineLabel hlabel, List.prefix_rfl⟩
  | reserve r owner =>
    refine .of_settled Extends.refl (outcome_reserve r owner) fun g _ g' hg' => ?_
    obtain ⟨after, hafter, heq⟩ := map_eq_ok_iff.1 hg'
    cases heq
    exact extends_reserve hafter
  | sweep _ s ih => exact keeps_sweep ih s
  | bind _ _ ihe ihf => exact ihe.bind (fun _ _ _ => Extends.trans) ihf
  | attempt _ ih => exact ih.attempt

/-- **A failed sweep leaves no trace.**  If a sweep fails, for whatever reason and however deep
inside its body, the generator is what it was: its program with all comments, its labels and its
live registers.  So whatever is done next, say a sweep with a better description, goes as if there
had been no sweep before it.  And it fails as the sweep on values does. -/
theorem sweep_leaves_no_trace {body : Edit SweepGenerator Unit} (hbody : Built body) (s : Sweep)
    (g : SweepGenerator) {e : AssemblyError} (h : (outcome (sweep s body) g).1 = .error e) :
    (outcome (sweep s body) g).2 = g ∧
      (∀ {α : Type} (next : Except AssemblyError Unit → Edit SweepGenerator α),
        outcome ((sweep s body).attempt >>= next) g = outcome (next (.error e)) g) ∧
      Id.run (g.sweep s fun inner => ExceptT.mk (body.success inner)).run = .error e := by
  have hsettled := outcome_sweep hbody.keeps s g
  have hboth := h
  rw [hsettled] at hboth
  obtain ⟨hfails, hsame⟩ := Edit.settled_eq_error hboth
  rw [← hsettled] at hsame
  refine ⟨hsame, fun next => ?_, hfails⟩
  rw [Edit.outcome_bind_of_ok (Edit.outcome_attempt ..), h, hsame]

/-- A loop whose body writes code, a label and another loop, reserves a register, and then fails
in opening a second loop. -/
theorem sweep_leaves_no_trace_nested :
    let s : Sweep := { name := "OUTER", count := 3, counter := ⟨0, 1⟩ }
    let body : Edit SweepGenerator Unit := do
      let _ ← onProgram (append (.synci 10) (some "settle"))
      onProgram (defineLabel "INNER")
      let _ ← (sweep { name := "AGAIN", count := 2, counter := ⟨0, 1⟩ } (pure ())).attempt
      reserve ⟨0, 5⟩ "scratch"
      sweep { name := "ONCE", count := 1, counter := ⟨0, 3⟩ } (pure ())
      sweep { name := "SCRATCH", count := 7, counter := ⟨0, 5⟩ } (pure ())
    let g : SweepGenerator :=
      { program := { statements := #[⟨.synci 1, some "kept"⟩], labels := #[("KEPT", 0)] }
        live := [(⟨0, 9⟩, "caller")] }
    Built body ∧
      (outcome (sweep s body) g).1 = .error (.registerCollision ⟨0, 5⟩ "scratch") ∧
      (outcome (sweep s body) g).2 = g := by
  intro s body g
  have hbody : Built body :=
    .bind (.append ..) fun _ => .bind (.defineLabel _) fun _ =>
      .bind (.attempt (.sweep (.pure ()) _)) fun _ => .bind (.reserve ..) fun _ =>
        .bind (.sweep (.pure ()) _) fun _ => .sweep (.pure ()) _
  have hfails : (outcome (sweep s body) g).1 =
      .error (.registerCollision ⟨0, 5⟩ "scratch") :=
    Edit.eq_error_of_failure? (by decide +kernel)
  exact ⟨hbody, hfails, (sweep_leaves_no_trace hbody s g hfails).1⟩

end InPlace
end SweepGenerator
end PulseProcessor
