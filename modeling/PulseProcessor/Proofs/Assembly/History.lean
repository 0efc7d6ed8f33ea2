import Mathlib.Data.List.Nodup
import PulseProcessor.Proofs.Assembly.Additions
import PulseProcessor.Proofs.Assembly.Stability
import PulseProcessor.Proofs.Assembly.Tidy

/-! # What labels mark

A label marks the instruction that comes next.  Programs are built with operations that may fail,
and what a failed operation has appended and defined is taken back, so of the instructions appended
before a label and behind it not all are there in the end.  `Program.Records` keeps a history of a
construction: the instructions that were appended, the labels that were defined, and what was taken
back, in the order of time and as deep as operations are nested.

In the end the instructions and labels that nobody has taken back are those of the program, and
every label has as its place the number of those instructions that were appended before it
(`Program.Constructs.labels_mark`).  What is taken back does not count, because it is taken back as
a whole: there never is a label left whose instructions are gone.
-/

namespace PulseProcessor
namespace Program

open Edit (outcome)
open SweepGenerator.InPlace (onProgram session)

/-! ### Histories -/

/-- Something that has been done to a program. -/
inductive Entry where
  | appended (i : Instruction)
  | labelled (name : String)
  /-- An operation that failed, with what it had done until then. -/
  | undone (entries : List Entry)

/-- What has been done to a program, the first thing first. -/
abbrev History := List Entry

/-- The instructions that have not been taken back. -/
def survivors : History → List Instruction
  | [] => []
  | .appended i :: h => i :: survivors h
  | .labelled _ :: h => survivors h
  | .undone _ :: h => survivors h

/-- The names of the labels that have not been taken back. -/
def labelNames : History → List String
  | [] => []
  | .appended _ :: h => labelNames h
  | .labelled name :: h => name :: labelNames h
  | .undone _ :: h => labelNames h

/-- The labels that have not been taken back, each with its place if the first instruction of the
history is at place `pc`. -/
def marks (pc : Nat) : History → List (String × Nat)
  | [] => []
  | .appended _ :: h => marks (pc + 1) h
  | .labelled name :: h => (name, pc) :: marks pc h
  | .undone _ :: h => marks pc h

variable {p q r : Program} {h h' : History} {pc : Nat} {name : String}

theorem survivors_append (h h' : History) :
    survivors (h ++ h') = survivors h ++ survivors h' := by
  induction h with
  | nil => rfl
  | cons e h ih => cases e <;> simp [survivors, ih]

theorem survivors_appended (code : List Instruction) : survivors (code.map .appended) = code := by
  induction code with
  | nil => rfl
  | cons i code ih => rw [List.map_cons, survivors, ih]

theorem marks_append (pc : Nat) (h h' : History) :
    marks pc (h ++ h') = marks pc h ++ marks (pc + (survivors h).length) h' := by
  induction h generalizing pc with
  | nil => rfl
  | cons e h ih =>
    cases e with
    | appended i => simp only [List.cons_append, marks, ih, survivors, List.length_cons,
        Nat.add_assoc, Nat.add_comm 1]
    | labelled name => simp only [List.cons_append, marks, ih, survivors]
    | undone es => simp only [List.cons_append, marks, ih, survivors]

theorem marks_appended (pc : Nat) (code : List Instruction) :
    marks pc (code.map .appended) = [] := by
  induction code generalizing pc with
  | nil => rfl
  | cons i code ih => rw [List.map_cons, marks, ih]

theorem map_fst_marks (pc : Nat) (h : History) : (marks pc h).map (·.1) = labelNames h := by
  induction h generalizing pc with
  | nil => rfl
  | cons e h ih => cases e <;> simp [marks, labelNames, ih]

/-- A label that has not been taken back has been defined at some time. -/
theorem exists_labelled_of_mem_marks {l : String × Nat} (hl : l ∈ marks pc h) :
    ∃ before after, h = before ++ .labelled l.1 :: after := by
  induction h generalizing pc with
  | nil => cases hl
  | cons e h ih =>
    have hlater (pc' : Nat) (hl : l ∈ marks pc' h) :
        ∃ before after, e :: h = before ++ .labelled l.1 :: after := by
      obtain ⟨before, after, rfl⟩ := ih hl
      exact ⟨e :: before, after, rfl⟩
    cases e with
    | appended i => exact hlater (pc + 1) hl
    | undone es => exact hlater pc hl
    | labelled name =>
      rcases List.mem_cons.1 hl with rfl | hl
      · exact ⟨[], h, rfl⟩
      · exact hlater pc hl

/-! ### Programs and their histories -/

/-- The instructions that one program has beyond another. -/
def added (p q : Program) : List Instruction := q.instructions.drop p.size

theorem Extends.instructions (hpq : p.Extends q) :
    q.instructions = p.instructions ++ p.added q := by
  obtain ⟨rest, hrest⟩ := hpq.statements
  have hall : q.instructions = p.instructions ++ rest.map (·.instruction) := by
    simp only [Program.instructions, ← hrest, List.map_append]
  rw [added, ← length_instructions, hall, List.drop_left]

/-- **One program has come out of another as a history says.** -/
structure GrowsBy (p : Program) (h : History) (q : Program) : Prop where
  grows : p.Grows q
  instructions : q.instructions = p.instructions ++ survivors h
  labels : q.labels.toList = p.labels.toList ++ marks p.size h

namespace GrowsBy

theorem size_eq (hpq : p.GrowsBy h q) : q.size = p.size + (survivors h).length := by
  rw [← length_instructions, hpq.instructions, List.length_append, length_instructions]

theorem refl (p : Program) : p.GrowsBy [] p :=
  ⟨.refl p, (List.append_nil _).symm, (List.append_nil _).symm⟩

theorem trans (hpq : p.GrowsBy h q) (hqr : q.GrowsBy h' r) : p.GrowsBy (h ++ h') r where
  grows := hpq.grows.trans hqr.grows
  instructions := by
    rw [hqr.instructions, hpq.instructions, survivors_append, List.append_assoc]
  labels := by
    rw [hqr.labels, hpq.labels, hpq.size_eq, marks_append, List.append_assoc]

/-- Code without labels. -/
theorem of_labels_eq (hgrows : p.Grows q) (hlabels : q.labels = p.labels) :
    p.GrowsBy ((p.added q).map .appended) q where
  grows := hgrows
  instructions := by rw [survivors_appended, ← hgrows.extends.instructions]
  labels := by rw [marks_appended, List.append_nil, hlabels]

theorem of_append (p : Program) (i : Instruction) (comment : Option String) :
    p.GrowsBy [.appended i] (p.append i comment) where
  grows := .of_append p i comment
  instructions := by simp [Program.instructions, append, survivors]
  labels := by simp [marks]

theorem of_defineLabel (hname : p.defineLabel name = .ok q) : p.GrowsBy [.labelled name] q where
  grows := (Grows.refl p).defineLabel hname
  instructions := by
    obtain ⟨-, -, rfl⟩ := defineLabel_eq_ok_iff.1 hname
    simp [Program.instructions, survivors]
  labels := by
    obtain ⟨-, -, rfl⟩ := defineLabel_eq_ok_iff.1 hname
    simp [marks]

/-- What has been undone has not been there. -/
theorem undone (p : Program) (h : History) : p.GrowsBy [.undone h] p :=
  ⟨.refl p, (List.append_nil _).symm, (List.append_nil _).symm⟩

end GrowsBy

/-! ### Recording -/

/-- **A history of an edit**, begun in a state.  It follows the edit, and of each operation it says
what its outcome was.  What a refused operation had done before it was refused is left open; of a
sweep whose body fails, it is the opening of the loop and all that the body has done. -/
inductive Records : {σ α : Type} → Holder σ → Edit σ α → σ → History → Prop
  | pure {σ α : Type} {H : Holder σ} (a : α) (s : σ) : Records H (pure a) s []
  | throw {σ α : Type} {H : Holder σ} (e : AssemblyError) (s : σ) :
      Records H (throw e : Edit σ α) s []
  | get {σ : Type} {H : Holder σ} (s : σ) : Records H get s []
  | bind {σ α β : Type} {H : Holder σ} {e : Edit σ α} {f : α → Edit σ β} {s t : σ} {a : α}
      {h h' : History} (first : Records H e s h) (succeeds : outcome e s = (.ok a, t))
      (rest : Records H (f a) t h') : Records H (e >>= f) s (h ++ h')
  | stop {σ α β : Type} {H : Holder σ} {e : Edit σ α} {s t : σ} {err : AssemblyError}
      {h : History} (first : Records H e s h) (fails : outcome e s = (.error err, t))
      (f : α → Edit σ β) : Records H (e >>= f) s h
  | attempt {σ α : Type} {H : Holder σ} {e : Edit σ α} {s : σ} {h : History}
      (he : Records H e s h) : Records H e.attempt s h
  | append (i : Instruction) (comment : Option String) (p : Program) :
      Records .plain (InPlace.append i comment) p [.appended i]
  | loadConstant (page reg : UInt8) (v : Int) (comment : Option String) (p : Program) :
      Records .plain (InPlace.loadConstant page reg v comment) p
        ((p.added (p.loadConstant page reg v comment)).map .appended)
  | defineLabel {name : String} {p q : Program} (succeeds : p.defineLabel name = .ok q) :
      Records .plain (InPlace.defineLabel name) p [.labelled name]
  | refuseLabel {name : String} {p : Program} {err : AssemblyError}
      (fails : p.defineLabel name = .error err) : Records .plain (InPlace.defineLabel name) p []
  | sequencer {α : Type} {e : Edit Sequencer α} {p : Program} {h : History}
      (he : Records .sequencer e { program := p } h) :
      Records .plain (Sequencer.InPlace.session e) p h
  | perform {map : ChannelMap} {call : Sequencer.Call} {s t : Sequencer} {answer : Option Int}
      (succeeds : s.perform map call = .ok (t, answer)) :
      Records .sequencer (Sequencer.InPlace.perform map call) s
        ((s.program.added t.program).map .appended)
  | refuseCall {map : ChannelMap} {call : Sequencer.Call} {s : Sequencer} {err : AssemblyError}
      (fails : s.perform map call = .error err) (h : History) :
      Records .sequencer (Sequencer.InPlace.perform map call) s [.undone h]
  | onSequencer {α : Type} {e : Edit Program α} {s : Sequencer} {h : History}
      (he : Records .plain e s.program h) : Records .sequencer (Sequencer.InPlace.onProgram e) s h
  | generator {α : Type} {e : Edit SweepGenerator α} {p : Program} {h : History}
      (he : Records .generator e { program := p } h) :
      Records .plain (SweepGenerator.InPlace.session e) p h
  | reserve (r : Register) (owner : String) (g : SweepGenerator) :
      Records .generator (SweepGenerator.InPlace.reserve r owner) g []
  | refuseSweep {body : Edit SweepGenerator Unit} (hbody : Constructs .generator body) {s : Sweep}
      {g : SweepGenerator} {err : AssemblyError} (fails : g.enter s = .error err) (h : History) :
      Records .generator (SweepGenerator.InPlace.sweep s body) g [.undone h]
  | undoSweep {body : Edit SweepGenerator Unit} (hbody : Constructs .generator body) {s : Sweep}
      {g inner t : SweepGenerator} {err : AssemblyError} {h : History}
      (opens : g.enter s = .ok inner) (inside : Records .generator body inner h)
      (fails : outcome body inner = (.error err, t)) :
      Records .generator (SweepGenerator.InPlace.sweep s body) g
        [.undone ((g.program.added inner.program).map .appended ++ .labelled s.name :: h)]
  | sweep {body : Edit SweepGenerator Unit} (hbody : Constructs .generator body) {s : Sweep}
      {g inner t : SweepGenerator} {h : History}
      (opens : g.enter s = .ok inner) (inside : Records .generator body inner h)
      (succeeds : outcome body inner = (.ok (), t)) :
      Records .generator (SweepGenerator.InPlace.sweep s body) g
        ((g.program.added inner.program).map .appended ++ .labelled s.name ::
          (h ++ (t.program.added (t.leave g s).program).map .appended))
  | onGenerator {α : Type} {e : Edit Program α} {g : SweepGenerator} {h : History}
      (he : Records .plain e g.program h) :
      Records .generator (SweepGenerator.InPlace.onProgram e) g h

/-! ### Sweeps -/

section
variable {g inner t : SweepGenerator} {s : Sweep} {body : Edit SweepGenerator Unit}
  {err : AssemblyError}

theorem growsBy_enter (opens : g.enter s = .ok inner) : g.program.GrowsBy
    ((g.program.added inner.program).map .appended ++ [.labelled s.name]) inner.program := by
  obtain ⟨-, -, -, -, hlabel⟩ := SweepGenerator.enter_eq_ok opens
  have hloaded := GrowsBy.of_labels_eq (SweepGenerator.grows_loaded g.program s)
    (SweepGenerator.labels_loaded g.program s)
  have hsame : g.program.added (SweepGenerator.loaded g.program s) =
      g.program.added inner.program := by
    obtain ⟨-, -, hinner⟩ := defineLabel_eq_ok_iff.1 hlabel
    rw [← hinner]
    rfl
  rw [← hsame]
  exact hloaded.trans (.of_defineLabel hlabel)

theorem outcome_sweep_refused (hbody : Constructs .generator body)
    (fails : g.enter s = .error err) :
    outcome (SweepGenerator.InPlace.sweep s body) g = (.error err, g) := by
  rw [SweepGenerator.InPlace.outcome_sweep hbody.keeps, SweepGenerator.run_sweep, fails]
  rfl

theorem outcome_sweep_undone (hbody : Constructs .generator body) (opens : g.enter s = .ok inner)
    (fails : outcome body inner = (.error err, t)) :
    outcome (SweepGenerator.InPlace.sweep s body) g = (.error err, g) := by
  rw [SweepGenerator.InPlace.outcome_sweep hbody.keeps, SweepGenerator.run_sweep, opens]
  simp only [Except.bind, Edit.success, fails]
  rfl

theorem outcome_sweep_closed (hbody : Constructs .generator body) (opens : g.enter s = .ok inner)
    (succeeds : outcome body inner = (.ok (), t)) :
    outcome (SweepGenerator.InPlace.sweep s body) g = (.ok (), t.leave g s) := by
  rw [SweepGenerator.InPlace.outcome_sweep hbody.keeps, SweepGenerator.run_sweep, opens]
  simp only [Except.bind, Edit.success, succeeds]
  rfl

end

/-! ### Runs -/

section
variable {σ α : Type} {H : Holder σ} {e : Edit σ α} {s : σ}

/-- **Programs come out of each other as their histories say.** -/
theorem Records.growsBy (hrec : Records H e s h) :
    (H.program s).GrowsBy h (H.program (outcome e s).2) := by
  induction hrec with
  | pure a s => exact .refl _
  | throw e s => exact .refl _
  | get s => exact .refl _
  | bind _ succeeds _ ihe ihf =>
    rw [succeeds] at ihe
    rw [Edit.outcome_bind_of_ok succeeds]
    exact ihe.trans ihf
  | stop _ fails f ih =>
    rw [fails] at ih
    rw [Edit.outcome_bind_of_error fails]
    exact ih
  | attempt _ ih => exact ih
  | append i comment p => exact .of_append p i comment
  | loadConstant page reg v comment p =>
    rw [InPlace.outcome_loadConstant]
    exact .of_labels_eq (.of_loadConstant ..) (labels_loadConstant ..)
  | @defineLabel name p q succeeds =>
    rw [InPlace.outcome_defineLabel, succeeds]
    exact .of_defineLabel succeeds
  | @refuseLabel name p err fails =>
    rw [InPlace.outcome_defineLabel, fails]
    exact .refl _
  | sequencer _ ih => exact ih
  | @perform map call s t answer succeeds =>
    rw [Sequencer.InPlace.outcome_perform, succeeds]
    have hwrites := Sequencer.writes_perform succeeds
    exact .of_labels_eq hwrites.grows hwrites.labels_eq
  | refuseCall fails h =>
    rw [Sequencer.InPlace.outcome_perform, fails]
    exact .undone ..
  | onSequencer _ ih => exact ih
  | generator _ ih => exact ih
  | reserve r owner g =>
    rw [SweepGenerator.InPlace.outcome_reserve]
    cases hreserve : g.reserve r owner with
    | error err => exact .refl _
    | ok taken =>
      have hsame : taken.program = g.program := (SweepGenerator.reserve_eq_ok hreserve).2.2.1
      show g.program.GrowsBy [] taken.program
      rw [hsame]
      exact .refl _
  | refuseSweep hbody fails h =>
    rw [outcome_sweep_refused hbody fails]
    exact .undone ..
  | undoSweep hbody opens _ fails ih =>
    rw [outcome_sweep_undone hbody opens fails]
    exact .undone ..
  | @sweep body hbody s g inner t h opens _ succeeds ih =>
    rw [outcome_sweep_closed hbody opens succeeds]
    rw [succeeds] at ih
    have hclosed := GrowsBy.of_labels_eq (t.grows_leave g s) (t.labels_leave g s)
    have hall := (growsBy_enter opens).trans (ih.trans hclosed)
    rwa [List.append_assoc] at hall
  | onGenerator _ ih => exact ih

/-- **Every construction has a history.** -/
theorem Constructs.exists_records (he : Constructs H e) (s : σ) : ∃ h, Records H e s h := by
  induction he with
  | pure a => exact ⟨_, .pure a s⟩
  | throw e => exact ⟨_, .throw e s⟩
  | get => exact ⟨_, .get s⟩
  | @bind _ _ _ _ e f _ _ ihe ihf =>
    obtain ⟨h, hfirst⟩ := ihe s
    rcases houtcome : outcome e s with ⟨err | a, t⟩
    · exact ⟨h, .stop hfirst houtcome f⟩
    · obtain ⟨h', hrest⟩ := ihf a t
      exact ⟨h ++ h', .bind hfirst houtcome hrest⟩
  | attempt _ ih => exact (ih s).imp fun _ => .attempt
  | append i comment => exact ⟨_, .append i comment s⟩
  | loadConstant page reg v comment => exact ⟨_, .loadConstant page reg v comment s⟩
  | defineLabel name =>
    cases hname : s.defineLabel name with
    | error err => exact ⟨_, .refuseLabel hname⟩
    | ok q => exact ⟨_, .defineLabel hname⟩
  | sequencer _ ih => exact (ih { program := s }).imp fun _ => .sequencer
  | perform map call =>
    cases hcall : s.perform map call with
    | error err => exact ⟨_, .refuseCall hcall []⟩
    | ok result => exact ⟨_, .perform hcall⟩
  | onSequencer _ ih => exact (ih s.program).imp fun _ => .onSequencer
  | generator _ ih => exact (ih { program := s }).imp fun _ => .generator
  | reserve r owner => exact ⟨_, .reserve r owner s⟩
  | @sweep body hbody d ih =>
    cases hopens : s.enter d with
    | error err => exact ⟨_, .refuseSweep hbody hopens []⟩
    | ok inner =>
      obtain ⟨h, hinside⟩ := ih inner
      rcases houtcome : outcome body inner with ⟨err | ⟨⟩, t⟩
      · exact ⟨_, .undoSweep hbody hopens hinside houtcome⟩
      · exact ⟨_, .sweep hbody hopens hinside houtcome⟩
  | onGenerator _ ih => exact (ih s.program).imp fun _ => .onGenerator

end

/-! ### Places of labels -/

/-- In a tidy program a label has one place. -/
theorem Tidy.labelPc?_eq_some_iff (hp : p.Tidy) :
    p.labelPc? name = some pc ↔ (name, pc) ∈ p.labels.toList := by
  rw [labelPc?, Option.map_eq_some_iff, ← Array.find?_toList]
  constructor
  · rintro ⟨l, hl, rfl⟩
    have hname : l.1 = name := by simpa using List.find?_some hl
    rw [← hname]
    exact List.mem_of_find?_eq_some hl
  · intro hmem
    cases hfind : p.labels.toList.find? (·.1 == name) with
    | none => simpa using List.find?_eq_none.1 hfind _ hmem
    | some l =>
      have hname : l.1 = name := by simpa using List.find?_some hfind
      have hsame : l = (name, pc) :=
        List.inj_on_of_nodup_map hp.distinct (List.mem_of_find?_eq_some hfind) hmem hname
      exact ⟨l, rfl, by rw [hsame]⟩

/-- **A program stands as its history says.**  Its instructions are those that survive and its
labels those that survive, in the order of their definition and as a table of labels should be.
Each label has as its place the number of instructions that survive of those appended before it, so
that it marks the next one; and jumps lead there, wherever they stand. -/
structure Labelled (h : History) (p : Program) : Prop where
  instructions : p.instructions = survivors h
  names : p.labels.toList.map (·.1) = labelNames h
  proper : ∀ l ∈ p.labels.toList, isLabelName l.1 = true
  distinct : (p.labels.toList.map (·.1)).Nodup
  ordered : p.labels.toList.Pairwise (·.2 ≤ ·.2)
  within : ∀ l ∈ p.labels.toList, l.2 ≤ p.size
  place : ∀ before name after, h = before ++ .labelled name :: after →
    p.labelPc? name = some (survivors before).length ∧
      p.instructions.drop (survivors before).length = survivors after
  defined : ∀ name pc, p.labelPc? name = some pc →
    ∃ before after, h = before ++ .labelled name :: after
  target : ∀ ws, p.encode = .ok ws → ∀ pc i k name, p.At pc i →
    i.operands[k]? = some (.label name) → ∃ w d before after, ws[pc]? = some w ∧
      Isa.decode? w = some d ∧ h = before ++ .labelled name :: after ∧
        (d.operand k).toNat = (survivors before).length

theorem GrowsBy.labelled (hp : GrowsBy {} h p) : Labelled h p := by
  have htidy : p.Tidy := Tidy.of_grows hp.grows .empty
  have hinstructions : p.instructions = survivors h := hp.instructions
  have hlabels : p.labels.toList = marks 0 h := hp.labels
  have hplace : ∀ before name after, h = before ++ .labelled name :: after →
      p.labelPc? name = some (survivors before).length ∧
        p.instructions.drop (survivors before).length = survivors after := by
    rintro before name after rfl
    refine ⟨htidy.labelPc?_eq_some_iff.2 ?_, ?_⟩
    · rw [hlabels, marks_append, Nat.zero_add]
      exact List.mem_append_right _ (List.mem_cons_self ..)
    · rw [hinstructions, survivors_append, List.drop_left]
      rfl
  have hdefined : ∀ name pc, p.labelPc? name = some pc →
      ∃ before after, h = before ++ .labelled name :: after := fun name pc hname => by
    have hmem := htidy.labelPc?_eq_some_iff.1 hname
    rw [hlabels] at hmem
    exact exists_labelled_of_mem_marks hmem
  refine ⟨hinstructions, ?_, htidy.name, htidy.distinct, htidy.ordered, htidy.within, hplace,
    hdefined, fun ws hws pc i k name hat hk => ?_⟩
  · rw [hlabels, map_fst_marks]
  · obtain ⟨w, hword, hw⟩ := hat.exists_word hws
    -- The word has the place of the label, and the label has its place from the history.
    have htarget := toNat_operand_label hw hk
    obtain ⟨before, after, hsplit⟩ := hdefined name _ htarget
    have hsame := (hplace before name after hsplit).1
    rw [htarget, Option.some.injEq] at hsame
    exact ⟨w, _, before, after, hword, decode?_encodeInstruction hw, hsplit, hsame⟩

/-- **Labels always mark the next surviving instruction.** -/
theorem Constructs.labels_mark {α : Type} {e : Edit Program α} (he : Constructs .plain e) :
    (∃ h, Records .plain e {} h) ∧
      ∀ h, Records .plain e {} h → Labelled h (outcome e {}).2 :=
  ⟨he.exists_records {}, fun _ hrec => hrec.growsBy.labelled⟩

/-- A sweep is undone because its body defines its own label again, and is done once more with
another label.  A jump from the front leads behind the body of the second one. -/
theorem Constructs.labels_mark_retry :
    let loop : Sweep := { name := "SCAN", count := 3, counter := ⟨0, 1⟩ }
    let body (last : String) : Edit SweepGenerator Unit := do
      let _ ← onProgram (InPlace.append (.synci 5))
      onProgram (InPlace.defineLabel last)
    let scan (last : String) : Edit Program Unit :=
      session (SweepGenerator.InPlace.sweep loop (body last))
    let leap : Instruction := .condj 0 2 (.known .gt) 0 "END"
    let edit : Edit Program Nat := do
      let _ ← InPlace.append leap
      let _ ← (scan "SCAN").attempt
      scan "END"
      InPlace.append .halt
    let opening : History := [.appended (.regwi 0 1 2), .labelled "SCAN", .appended (.synci 5)]
    let h : History := [.appended leap, .undone opening] ++ opening ++
      [.labelled "END", .appended (.loopnz 0 1 "SCAN"), .appended .halt]
    let p := (outcome edit {}).2
    Constructs .plain edit ∧ Records .plain edit {} h ∧
      p.instructions = [leap, .regwi 0 1 2, .synci 5, .loopnz 0 1 "SCAN", .halt] ∧
      p.labelPc? "SCAN" = some 2 ∧ p.labelPc? "END" = some 3 ∧
      ∃ ws w d, p.encode = .ok ws ∧ ws[0]? = some w ∧ Isa.decode? w = some d ∧
        (d.operand 4).toNat = 3 := by
  intro loop body scan leap edit opening h p
  have hbody (last : String) : Constructs .generator (body last) :=
    .bind (.onGenerator (.append ..)) fun _ => .onGenerator (.defineLabel last)
  have hscan (last : String) : Constructs .plain (scan last) :=
    .generator (.sweep (hbody last) loop)
  have hedit : Constructs .plain edit := .bind (.append ..) fun _ =>
    .bind (.attempt (hscan "SCAN")) fun _ => .bind (hscan "END") fun _ => .append ..
  -- Both sweeps begin behind the jump, and in the same way.
  let first : Program := Program.append {} leap
  let inner : SweepGenerator :=
    { program :=
        { statements := #[⟨leap, none⟩, ⟨.regwi 0 1 2, some "SCAN: 3 iterations"⟩]
          labels := #[("SCAN", 2)] }
      live := [(⟨0, 1⟩, "SCAN")] }
  have hopens : ({ program := first } : SweepGenerator).enter loop = .ok inner := by decide +kernel
  have hsynci : Records .generator (onProgram (InPlace.append (.synci 5))) inner
      [.appended (.synci 5)] := .onGenerator (.append ..)
  have hundone : Records .plain (scan "SCAN") first [.undone opening] :=
    .generator (.undoSweep (hbody "SCAN") hopens
      (.bind hsynci rfl (.onGenerator (.refuseLabel rfl))) rfl)
  have hclosed : Records .plain (scan "END") first
      (opening ++ [.labelled "END", .appended (.loopnz 0 1 "SCAN")]) :=
    .generator (.sweep (hbody "END") hopens
      (.bind hsynci rfl (.onGenerator (.defineLabel rfl))) rfl)
  have hgone : (outcome (scan "SCAN") first).2 = first := by decide +kernel
  have hpassed : outcome (scan "SCAN").attempt first =
      (.ok (outcome (scan "SCAN") first).1, first) := by
    rw [Edit.outcome_attempt, hgone]
  have hdone : (outcome (scan "END") first).1 = .ok () := by decide +kernel
  have hrec : Records .plain edit {} h :=
    .bind (h := [.appended leap]) (.append ..) rfl
      (.bind (h := [.undone opening]) (.attempt hundone) hpassed
        (.bind hclosed (Prod.ext hdone rfl) (.append ..)))
  have hp : Labelled h p := (labels_mark hedit).2 h hrec
  let before : History := [.appended leap, .undone opening] ++ opening
  have hloop : p.labelPc? "SCAN" = some 2 :=
    (hp.place [.appended leap, .undone opening, .appended (.regwi 0 1 2)] "SCAN" _ rfl).1
  have hend : p.labelPc? "END" = some 3 := (hp.place before "END" _ rfl).1
  have hencodes : ∃ ws, p.encode = .ok ws ∧ ws.length = 5 := exists_ok (by decide +kernel)
  obtain ⟨ws, hws, -⟩ := hencodes
  have hleap : p.At 0 leap := by
    rw [at_iff, hp.instructions]
    rfl
  obtain ⟨w, d, before, after, hw, hd, hsplit, hplace⟩ := hp.target ws hws 0 leap 4 "END" hleap rfl
  have hsame := (hp.place before "END" after hsplit).1
  rw [hend, ← hplace, Option.some.injEq] at hsame
  exact ⟨hedit, hrec, hp.instructions, hloop, hend, ws, w, d, hws, hw, hd, hsame.symm⟩

end Program
end PulseProcessor
