import PulseProcessor.CommandLine.Desk

/-! # Commands at a desk

At a desk a command is a function of the desk's state (`Desk.perform`).  A command that succeeds has
succeeded in each of its parts, one after the other (`Desk.perform_bind_eq_ok`), so what a command
has done is found by taking it apart.
-/

namespace PulseProcessor.CommandLine
namespace Desk

variable {α β : Type} {command : CommandT (StateM Desk) α} {d d' d'' : Desk} {a : α} {b : β}

/-- A command carried out at a desk. -/
def perform (command : CommandT (StateM Desk) α) (d : Desk) : Except Failure α × Desk :=
  Id.run (command.run.run d)

/-- **What succeeds has succeeded in its parts.** -/
theorem perform_bind_eq_ok {next : α → CommandT (StateM Desk) β}
    (h : perform (command >>= next) d = (.ok b, d'')) :
    ∃ a d', perform command d = (.ok a, d') ∧ perform (next a) d' = (.ok b, d'') := by
  change ExceptT.bindCont next (command.run.run d).1 (command.run.run d).2 = _ at h
  rcases hfirst : command.run.run d with ⟨e | a, d'⟩
  · rw [hfirst] at h
    cases h
  · rw [hfirst] at h
    exact ⟨a, d', hfirst, h⟩

theorem perform_bind_of_ok {next : α → CommandT (StateM Desk) β}
    (h : perform command d = (.ok a, d')) : perform (command >>= next) d = perform (next a) d' := by
  change ExceptT.bindCont next (command.run.run d).1 (command.run.run d).2 = _
  rw [show command.run.run d = (.ok a, d') from h]
  rfl

/-- Nothing comes of what follows a failure. -/
theorem perform_throw_bind_ne_ok {next : α → CommandT (StateM Desk) β} {failure : Failure} :
    perform (throw failure >>= next) d ≠ (.ok b, d') := by
  intro h
  obtain ⟨_, _, hthrow, -⟩ := perform_bind_eq_ok h
  cases hthrow

theorem perform_attempt_eq_ok {ε : Type} {failure : ε → Failure} {answer : Except ε α}
    (h : perform (attempt failure answer) d = (.ok a, d')) : answer = .ok a := by
  cases answer with
  | error e => cases h
  | ok a' =>
    cases h
    rfl

/-- What the desk does for a command succeeds. -/
theorem perform_lift (x : StateM Desk α) (d : Desk) :
    perform (liftM x) d = (.ok (x d).1, (x d).2) := rfl

/-! ### Printing -/

/-- Lines as they are printed. -/
def textOf (lines : List String) : String := String.join (lines.map (· ++ "\n"))

theorem textOf_append (lines lines' : List String) :
    textOf (lines ++ lines') = textOf lines ++ textOf lines' := by
  rw [textOf, List.map_append, String.join_append]
  rfl

/-- **Lines are printed behind what has been printed before.** -/
theorem printLines_eq (lines : List String) (d : Desk) :
    host.printLines lines d = ((), { d with printed := d.printed ++ textOf lines }) := by
  induction lines generalizing d with
  | nil =>
    have hnil : d.printed ++ textOf [] = d.printed := String.append_empty
    rw [hnil]
    rfl
  | cons line lines ih =>
    have hfirst : host.printLines (line :: lines) d =
        host.printLines lines { d with printed := d.printed ++ (line ++ "\n") } := rfl
    rw [hfirst, ih, textOf, textOf, List.map_cons, String.join_cons, String.append_assoc]

end Desk
end PulseProcessor.CommandLine
