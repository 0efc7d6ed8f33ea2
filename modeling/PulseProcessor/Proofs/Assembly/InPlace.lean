import PulseProcessor.Assembly.InPlace
import PulseProcessor.Proofs.Assembly.Extension

/-! # Edits in place

What an edit does is its outcome: its answer, and the state that it leaves (`Edit.outcome`).  An
edit that does what an operation on values does, and nothing if that fails, has a `settled` outcome.

The operations on programs have settled outcomes, since each of them checks before it changes
anything.  What is built from several of them has not, but whatever it does to a program only makes
it longer, and a program that goes on behind a checkpoint is rolled back to what it was there
(`Program.Extends.rollback`).
-/

namespace PulseProcessor

/-! ### Outcomes -/

namespace Edit

variable {σ τ α β : Type}

/-- The new state, if there is an answer. -/
def success (e : Edit σ Unit) (s : σ) : Except AssemblyError σ :=
  (outcome e s).1.map fun _ => (outcome e s).2

variable {s : σ} {e : Edit σ α} {f : α → Edit σ β}

@[simp] theorem outcome_pure (a : α) (s : σ) : outcome (pure a) s = (.ok a, s) := rfl

@[simp] theorem outcome_throw (e : AssemblyError) (s : σ) :
    outcome (throw e : Edit σ α) s = (.error e, s) := rfl

@[simp] theorem outcome_get (s : σ) : outcome get s = (.ok s, s) := rfl

@[simp] theorem outcome_modify (f : σ → σ) (s : σ) : outcome (modify f) s = (.ok (), f s) := rfl

@[simp] theorem outcome_answer (r : Except AssemblyError α) (s : σ) :
    outcome (EditT.answer r) s = (r, s) := rfl

@[simp] theorem outcome_attempt (e : Edit σ α) (s : σ) :
    outcome e.attempt s = (.ok (outcome e s).1, (outcome e s).2) := rfl

@[simp] theorem outcome_on (get : σ → τ) (set : σ → τ → σ) (e : Edit τ α) (s : σ) :
    outcome (e.on get set) s = ((outcome e (get s)).1, set s (outcome e (get s)).2) := rfl

theorem outcome_bind (e : Edit σ α) (f : α → Edit σ β) (s : σ) :
    outcome (e >>= f) s =
      match outcome e s with
      | (.ok a, s') => outcome (f a) s'
      | (.error err, s') => (.error err, s') := by
  change (ExceptT.bindCont f (outcome e s).1 (outcome e s).2).run = _
  rcases outcome e s with ⟨answer, s'⟩
  cases answer <;> rfl

/-- An edit that begins with a step that gives a result is the rest of it from there. -/
theorem outcome_bind_of_ok {a : α} {s' : σ} (h : outcome e s = (.ok a, s')) :
    outcome (e >>= f) s = outcome (f a) s' := by
  rw [outcome_bind, h]

/-- An edit that begins with a step that fails leaves what that step leaves. -/
theorem outcome_bind_of_error {err : AssemblyError} {s' : σ}
    (h : outcome e s = (.error err, s')) : outcome (e >>= f) s = (.error err, s') := by
  rw [outcome_bind, h]

@[simp] theorem outcome_map (g : α → β) (e : Edit σ α) (s : σ) :
    outcome (g <$> e) s = ((outcome e s).1.map g, (outcome e s).2) := by
  rw [← bind_pure_comp, outcome_bind]
  rcases outcome e s with ⟨answer, s'⟩
  cases answer <;> rfl

@[simp] theorem outcome_discard (e : Edit σ α) (s : σ) :
    outcome (discard e) s = ((outcome e s).1.map fun _ => (), (outcome e s).2) :=
  outcome_map (fun _ => ()) e s

/-- Steps that always give a result do so in a row. -/
theorem outcome_forM {step : σ → α → σ} {f : α → Edit σ Unit}
    (hf : ∀ a s, outcome (f a) s = (.ok (), step s a)) (as : List α) (s : σ) :
    outcome (as.forM f) s = (.ok (), as.foldl step s) := by
  induction as generalizing s with
  | nil => rfl
  | cons a as ih =>
    show outcome (f a >>= fun _ => as.forM f) s = _
    rw [outcome_bind_of_ok (hf a s)]
    exact ih (step s a)

/-- A settled outcome that is an error leaves the state as it was. -/
theorem settled_eq_error {step : Except AssemblyError β} {f : β → α × σ} {err : AssemblyError}
    (h : (settled s (step.map f)).1 = .error err) :
    step = .error err ∧ (settled s (step.map f)).2 = s := by
  cases step with
  | ok result => cases h
  | error e =>
    cases h
    exact ⟨rfl, rfl⟩

/-- The error with which an edit fails. -/
def failure? (e : Edit σ α) (s : σ) : Option AssemblyError :=
  match (outcome e s).1 with
  | .ok _ => none
  | .error err => some err

theorem eq_error_of_failure? {err : AssemblyError} (h : failure? e s = some err) :
    (outcome e s).1 = .error err := by
  unfold failure? at h
  split at h
  · cases h
  · rename_i herr
    cases h
    exact herr

/-! ### What an edit keeps -/

/-- **Whatever comes of an edit**, the state that it leaves is related to the one before. -/
def Keeps (R : σ → σ → Prop) (e : Edit σ α) : Prop := ∀ s, R s (outcome e s).2

variable {R : σ → σ → Prop}

theorem Keeps.of_eq (hrefl : ∀ s, R s s) (h : ∀ s, (outcome e s).2 = s) : Keeps R e := by
  intro s
  rw [h]
  exact hrefl s

theorem Keeps.bind (htrans : ∀ s t u, R s t → R t u → R s u) (he : Keeps R e)
    (hf : ∀ a, Keeps R (f a)) : Keeps R (e >>= f) := by
  intro s
  have hs := he s
  rw [outcome_bind]
  rcases houtcome : outcome e s with ⟨answer, s'⟩
  rw [houtcome] at hs
  cases answer with
  | error err => exact hs
  | ok a => exact htrans _ _ _ hs (hf a s')

theorem Keeps.attempt (he : Keeps R e) : Keeps R e.attempt := he

theorem Keeps.of_settled {step : σ → Except AssemblyError (α × σ)} (hrefl : ∀ s, R s s)
    (houtcome : ∀ s, outcome e s = settled s (step s))
    (hstep : ∀ s a s', step s = .ok (a, s') → R s s') : Keeps R e := by
  intro s
  rw [houtcome]
  cases h : step s with
  | error err => exact hrefl s
  | ok result => exact hstep s result.1 result.2 h

end Edit

/-! ### Checkpoints -/

namespace Program

variable {p q : Program}

/-- **Rolling back undoes what has been added**, and nothing else. -/
theorem Extends.rollback (h : p.Extends q) : q.rollback p.checkpoint = p := by
  obtain ⟨statements, labels⟩ := p
  obtain ⟨⟨later, hstatements⟩, ⟨later', hlabels⟩⟩ := h
  have htake : q.statements.take statements.size = statements := by
    apply Array.toList_inj.1
    simp [← hstatements]
  have htake' : q.labels.take labels.size = labels := by
    apply Array.toList_inj.1
    simp [← hlabels]
  simp only [Program.rollback, checkpoint, htake, htake']

theorem annotate_append_self (p : Program) (i : Instruction) (comment : String) :
    (p.append i).annotate p.size comment = p.append i (some comment) := by
  simp only [append, annotate, size, Program.mk.injEq, and_true]
  apply Array.ext
  · simp
  · intro k hk hk'
    simp only [Array.getElem_modify, Array.getElem_push]
    by_cases hlast : p.statements.size = k
    · subst hlast
      simp
    · have hlt : k < p.statements.size := by
        simp only [Array.size_push] at hk'
        omega
      simp [hlast, hlt]

theorem annotate_append {pc : Nat} (h : pc < p.size) (i : Instruction) (comment : String)
    (comment' : Option String) :
    (p.append i comment').annotate pc comment = (p.annotate pc comment).append i comment' := by
  simp only [append, annotate, Program.mk.injEq, and_true]
  apply Array.ext
  · simp
  · intro k hk hk'
    simp only [Array.getElem_modify, Array.getElem_push, Array.size_modify]
    by_cases hlt : k < p.statements.size
    · simp [hlt]
    · have hpc : pc ≠ k := by
        rw [size] at h
        omega
      simp [hlt, hpc]

/-- The comment of a constant may come last. -/
theorem annotate_loadConstant (p : Program) (page reg : UInt8) (v : Int) (comment : String) :
    (p.loadConstant page reg v).annotate p.size comment =
      p.loadConstant page reg v (some comment) := by
  unfold loadConstant
  split
  · exact annotate_append_self ..
  · dsimp only
    split
    · rw [annotate_append (by simp), annotate_append_self]
    · rw [annotate_append (by simp only [size_append]; omega), annotate_append (by simp),
        annotate_append_self]

/-! ### Operations -/

namespace InPlace

open Edit

@[simp] theorem outcome_append (i : Instruction) (comment : Option String) (p : Program) :
    outcome (append i comment) p = (.ok p.size, p.append i comment) := rfl

theorem outcome_defineLabel (name : String) (p : Program) :
    outcome (defineLabel name) p = settled p ((p.defineLabel name).map ((), ·)) := by
  unfold defineLabel Program.defineLabel
  by_cases hname : isLabelName name = true
  · by_cases hfree : (p.labelPc? name).isSome = true
    · simp [outcome_bind, hname, hfree, settled, Except.map]
    · simp [outcome_bind, hname, hfree, settled, Except.map]
  · simp [hname, settled, Except.map]

theorem outcome_appendConstant (page reg : UInt8) (v : Int) (p : Program) :
    outcome (appendConstant page reg v) p = (.ok p.size, p.loadConstant page reg v) := by
  unfold appendConstant Program.loadConstant
  by_cases hsmall : v.natAbs < 1 <<< 30
  · rw [if_pos hsmall, if_pos hsmall]
    rfl
  · rw [if_neg hsmall, if_neg hsmall]
    by_cases hlow : v % 4 = 0
    · simp [hlow, outcome_bind, Except.map]
    · simp [hlow, outcome_bind, Except.map]

@[simp] theorem outcome_loadConstant (page reg : UInt8) (v : Int) (comment : Option String)
    (p : Program) : outcome (loadConstant page reg v comment) p =
      (.ok p.size, p.loadConstant page reg v comment) := by
  rw [loadConstant, outcome_bind_of_ok (outcome_appendConstant ..)]
  cases comment with
  | none => rfl
  | some comment => simp [annotate_loadConstant, Except.map]

end InPlace
end Program
end PulseProcessor
