import Mathlib.Data.List.Forall2
import PulseProcessor.Proofs.Sweep.Stepping

/-! # Nested sweeps run as the loops they describe

The code of a nest takes a machine from the place where the code begins to the place where it ends,
and makes of its state what `LoopNest.exec` makes of it (`LoopNest.Compiled`).  Registers that loops
around the nest own come out as they went in; so an iteration finds its counter, after the body, as
it has been at the start.
-/

namespace PulseProcessor

open Machine (Executes Passage Visits)

namespace LoopNest

/-- At the start of an iteration, control is at the loop's label and registers have their values. -/
def Begins (p : Program) (iteration : Sweep × Nat) (m : Machine) : Prop :=
  p.labelPc? iteration.1.name = some m.pc ∧
    ∀ r ∈ iteration.1.registers, m.get r.register = r.value iteration.2

/-- **Between two places of a program there is the code of a nest.**  Executed, it does what the
nest does, leaves owned registers alone, and starts the iterations of the nest in their order. -/
def Compiled (t : LoopNest) (q : Program) (ws : List Word) (owned : List Register) (lo hi : Nat)
    (heads : List Nat) : Prop :=
  ∀ m m', t.exec m = some m' → m.halted = false → ∃ ms,
    Passage ws.toArray m lo m' hi ms ∧ m'.halted = false ∧ (∀ r ∈ owned, m'.get r = m.get r) ∧
      List.Forall₂ (Begins q) t.iterations (ms.filter (·.pc ∈ heads))

variable {q : Program} {ws : List Word} {owned : List Register} {m m' : Machine}

theorem compiled_done (q : Program) (ws : List Word) (owned : List Register) (k : Nat) :
    done.Compiled q ws owned k k [] := by
  rintro m m' h hrun
  cases h
  exact ⟨[], .refl m k, hrun, fun _ _ => rfl, .nil⟩

theorem compiled_code {i : Instruction} {comment : Option String} {rest : LoopNest} {lo hi : Nat}
    {heads : List Nat} (hq : q.encode = .ok ws) (hs : i.Straight)
    (hfree : ∀ r ∈ i.destination?, r ∉ owned) (hvalid : ∀ r ∈ owned, r.Valid) (hat : q.At lo i)
    (hheads : ∀ k ∈ heads, lo + 1 < k) (hrest : rest.Compiled q ws owned (lo + 1) hi heads) :
    (code i comment rest).Compiled q ws owned lo hi heads := by
  intro m m' hexec hrun
  obtain ⟨m₁, hperform, hexec⟩ := Option.bind_eq_some_iff.1 hexec
  obtain ⟨w, -, hw⟩ := hat.exists_word hq
  obtain ⟨ms, hpass, hrun', hget, hits⟩ := hrest m₁ m' hexec
    ((hs.perform_halted hw hperform).trans hrun)
  refine ⟨m.goto lo :: ms, (Passage.single (hat.next?_straight hq hs hrun hperform)).trans hpass,
    hrun', fun r hr => ?_, ?_⟩
  · rw [hget r hr]
    exact hs.get_perform hw hperform (hvalid r hr) fun hdest => hfree r hdest hr
  · -- No iteration starts at a place of straight-line code.
    have hlo : lo ∉ heads := fun h => by have := hheads lo h; omega
    rwa [List.filter_cons_of_neg (by simp [hlo])]

end LoopNest

/-! ### Iterations -/

namespace Sweep

open SweepGenerator (advance)

variable {q : Program} {ws : List Word} {owned : List Register} {m m' : Machine}

/-- The program in which a loop has been closed. -/
def closed (p : Program) (s : Sweep) : Program :=
  (s.registers.foldl advance p).append (.loopnz s.counter.page s.counter.number s.name)

theorem size_lt_size_closed (s : Sweep) (p : Program) : p.size < (s.closed p).size := by
  rw [closed, Program.size_append]
  exact Nat.lt_succ_of_le (SweepGenerator.grows_advances _ _).extends.size_le

theorem at_closed {p : Program} {s : Sweep} (h : (s.closed p).Extends q) :
    q.At (s.registers.foldl advance p).size
      (.loopnz s.counter.page s.counter.number s.name) :=
  (Program.at_append ..).extends h

/-- The registers of a loop that is closed in a program exist. -/
theorem valid_of_closed {p : Program} {s : Sweep} (hq : q.encode = .ok ws)
    (hne : ∀ r ∈ s.owned, r.number ≠ 0) (h : (s.closed p).Extends q) : ∀ r ∈ s.owned, r.Valid := by
  rw [owned, List.forall_mem_cons] at hne ⊢
  obtain ⟨w, -, hw⟩ := (at_closed h).exists_word hq
  obtain ⟨hpage, hnumber, -⟩ := Machine.effect_loopnz hw
  refine ⟨⟨hpage, hnumber, hne.1⟩, ?_⟩
  rw [List.forall_mem_map] at hne ⊢
  exact SweepGenerator.valid_of_advances hq hne.2 ((Program.extends_append ..).trans h)

/-- The counter is zero in the last iteration. -/
theorem counter_eq_zero_iff {s : Sweep} {i : Nat} (hi : i < s.count.toNat) :
    UInt32.ofNat (s.count.toNat - 1 - i) = 0 ↔ ¬ i + 1 < s.count.toNat := by
  have := s.count.toNat_lt
  rw [← UInt32.toNat_inj, UInt32.toNat_ofNat', UInt32.toNat_zero]
  omega

/-- Counting down leads to the counter of the next iteration. -/
theorem counter_sub_one {s : Sweep} {i : Nat} (hi : i + 1 < s.count.toNat) :
    UInt32.ofNat (s.count.toNat - 1 - i) - 1 = .ofNat (s.count.toNat - 1 - (i + 1)) := by
  have := s.count.toNat_lt
  rw [← UInt32.toNat_inj, UInt32.toNat_sub, UInt32.toNat_ofNat', UInt32.toNat_ofNat',
    UInt32.toNat_one]
  omega

/-- **Stepping and jumping back.**  The machine is ready for the next iteration, at the label if
there is one to come. -/
theorem exists_next {p : Program} {s : Sweep} {i head : Nat} (hq : q.encode = .ok ws)
    (hvalid : ∀ r ∈ s.owned, r.Valid) (hnodup : s.owned.Nodup)
    (hsteps : ∀ r ∈ s.registers, Isa.Narrow r.step) (h : (s.closed p).Extends q)
    (hhead : q.labelPc? s.name = some head) (hi : i < s.count.toNat) (hrun : m.halted = false)
    (hvalues : ∀ r ∈ s.registers, m.get r.register = r.value i)
    (hcounter : m.get s.counter = .ofNat (s.count.toNat - 1 - i)) :
    ∃ ms, ms ≠ [] ∧ Visits p.size (s.closed p).size ms ∧
      Executes ws.toArray (m.goto p.size) ms ((s.load (i + 1) m).goto
        (if i + 1 < s.count.toNat then head else (s.closed p).size)) := by
  rw [owned, List.forall_mem_cons] at hvalid
  rw [owned, List.nodup_cons] at hnodup
  have hregisters : ∀ r ∈ s.registers, r.register.Valid := by simpa using hvalid.2
  obtain ⟨ms, hms⟩ := SweepGenerator.passage_advances hq hregisters hnodup.2 hsteps
    ((Program.extends_append ..).trans h) hrun hvalues
  obtain ⟨place, hplace, hnext⟩ := (at_closed h).next?_loopnz hq
    (m := m.putValues s.registers (i + 1)) (by simpa using hrun)
  obtain rfl : head = place := Option.some.inj (hhead.symm.trans hplace)
  -- The counter is none of the swept registers, so it still has its value when the jump reads it.
  have hcounter' := Machine.get_putValues_of_not_mem (m := m) (i := i + 1) hregisters hvalid.1
    hnodup.1
  rw [hcounter] at hcounter'
  have hstep : (if (m.putValues s.registers (i + 1)).get s.counter = 0 then
        (m.putValues s.registers (i + 1)).goto ((s.registers.foldl advance p).size + 1)
      else ((m.putValues s.registers (i + 1)).put s.counter
        ((m.putValues s.registers (i + 1)).get s.counter - 1)).goto head) =
      (s.load (i + 1) m).goto (if i + 1 < s.count.toNat then head else (s.closed p).size) := by
    by_cases hmore : i + 1 < s.count.toNat
    · rw [hcounter', if_pos hmore, if_neg (by rw [counter_eq_zero_iff hi]; exact not_not.2 hmore),
        counter_sub_one hmore]
      rfl
    · have hzero := (counter_eq_zero_iff hi).2 hmore
      have hlast : s.count.toNat - 1 - (i + 1) = s.count.toNat - 1 - i := by omega
      rw [if_neg hmore, if_pos (hcounter'.trans hzero), load, hlast, ← hcounter',
        Machine.put_get_self]
      simp [closed]
  rw [hstep] at hnext
  refine ⟨ms ++ [_], by simp, hms.visits.append ?_ hms.le (by simp [closed]),
    hms.executes.trans (.single hnext)⟩
  exact ⟨by simp [closed], by simp⟩

/-- Of the machines in an iteration, those at a label are the first one and, of the others, those
at a label inside of the body. -/
theorem filter_heads {lo mid hi : Nat} {ms ms' tail : List Machine} {heads rest : List Nat}
    (hms : Visits lo mid ms) (hms' : Visits mid hi ms') (hle : lo ≤ mid) (hle' : mid ≤ hi)
    (hcons : ms ++ ms' = m :: tail) (hm : m.pc = lo) (hheads : ∀ k ∈ heads, lo < k ∧ k < mid)
    (hrest : ∀ k ∈ rest, hi < k) :
    (ms ++ ms').filter (·.pc ∈ lo :: (heads ++ rest)) = m :: ms.filter (·.pc ∈ heads) := by
  have hall := hms.append hms' hle hle'
  have hfirst : m.pc ∉ heads := fun h => by have := hheads _ h; omega
  have hlast : ms'.filter (·.pc ∈ heads) = [] := by
    rw [List.filter_eq_nil_iff]
    intro x hx hmem
    have := hms'.between x hx
    have := hheads x.pc (by simpa using hmem)
    omega
  have htail : tail.filter (·.pc ∈ lo :: (heads ++ rest)) = tail.filter (·.pc ∈ heads) := by
    rw [hcons] at hall
    refine List.filter_congr fun x hx => ?_
    have := hall.once x hx
    have := hall.between x (List.mem_cons_of_mem _ hx)
    have hnotrest : x.pc ∉ rest := fun h => by have := hrest _ h; omega
    simp [hnotrest, show x.pc ≠ lo by omega]
  calc (ms ++ ms').filter (·.pc ∈ lo :: (heads ++ rest))
      = m :: tail.filter (·.pc ∈ heads) := by
        rw [hcons, List.filter_cons_of_pos (by simp [hm]), htail]
    _ = m :: (ms ++ ms').filter (·.pc ∈ heads) := by
      rw [hcons, List.filter_cons_of_neg (by simpa using hfirst)]
    _ = m :: ms.filter (·.pc ∈ heads) := by rw [List.filter_append, hlast, List.append_nil]

end Sweep

/-! ### Loops -/

namespace LoopNest

variable {q : Program} {ws : List Word} {owned : List Register} {m m' : Machine}

/-- What is known of a loop whose code is in a program: `p` is the program at its label, and `p'`
the one behind its body. -/
structure Placed (q : Program) (ws : List Word) (s : Sweep) (body : LoopNest)
    (owned : List Register) (p p' : Program) (heads : List Nat) : Prop where
  encode : q.encode = .ok ws
  valid : ∀ r ∈ s.owned, r.Valid
  nodup : s.owned.Nodup
  narrow : ∀ r ∈ s.registers, Isa.Narrow r.step
  extends_body : p.Extends p'
  closed_extends : (s.closed p').Extends q
  label : q.labelPc? s.name = some p.size
  body : body.Compiled q ws (s.owned ++ owned) p.size p'.size heads
  heads : ∀ k ∈ heads, p.size < k ∧ k < p'.size
  outer : ∀ r ∈ owned, r.Valid ∧ r ∉ s.owned

variable {s : Sweep} {body : LoopNest} {p p' : Program} {heads rest : List Nat} {i : Nat}

/-- **One iteration.** -/
theorem Placed.iteration (h : Placed q ws s body owned p p' heads) (hi : i < s.count.toNat)
    (hrest : ∀ k ∈ rest, (s.closed p').size < k) (hexec : body.exec (s.load i m) = some m')
    (hrun : m.halted = false) :
    ∃ ms, Visits p.size (s.closed p').size ms ∧
      Executes ws.toArray ((s.load i m).goto p.size) ms ((s.load (i + 1) m').goto
        (if i + 1 < s.count.toNat then p.size else (s.closed p').size)) ∧
      m'.halted = false ∧ (∀ r ∈ owned, m'.get r = m.get r) ∧
      List.Forall₂ (Begins q) ((s, i) :: body.iterations)
        (ms.filter (·.pc ∈ p.size :: (heads ++ rest))) := by
  obtain ⟨ms, hms, hrun', hget, hits⟩ := h.body _ _ hexec (by simpa using hrun)
  -- The body leaves the registers of the loop as it has found them.
  have hsame : ∀ r ∈ s.owned, m'.get r = (s.load i m).get r := fun r hr =>
    hget r (List.mem_append_left _ hr)
  obtain ⟨ms', hne, hvisits, hnext⟩ := Sweep.exists_next h.encode h.valid h.nodup h.narrow
    h.closed_extends h.label hi hrun'
    (fun r hr => by
      rw [hsame _ (List.mem_cons_of_mem _ (List.mem_map_of_mem hr))]
      exact Sweep.get_load h.valid h.nodup r hr)
    (by
      rw [hsame _ (List.mem_cons_self ..)]
      exact Sweep.get_load_counter (h.valid _ (List.mem_cons_self ..)))
  have hall := hms.executes.trans hnext
  obtain ⟨tail, htail⟩ := hall.exists_cons (by simp [hne])
  have hclosed := s.size_lt_size_closed p'
  refine ⟨ms ++ ms', hms.visits.append hvisits hms.le (Nat.le_of_lt hclosed), hall, hrun',
    fun r hr => ?_, ?_⟩
  · rw [hget r (List.mem_append_right _ hr)]
    exact Sweep.get_load_of_not_mem h.valid (h.outer r hr).1 (h.outer r hr).2
  · rw [Sweep.filter_heads hms.visits hvisits hms.le (Nat.le_of_lt hclosed) htail rfl h.heads hrest]
    exact .cons ⟨h.label, Sweep.get_load h.valid h.nodup⟩ hits

/-- **All iterations from one on.** -/
theorem Placed.iterate (h : Placed q ws s body owned p p' heads)
    (hrest : ∀ k ∈ rest, (s.closed p').size < k) {n : Nat} (hn : i + (n + 1) = s.count.toNat)
    (hexec : (List.range' i (n + 1)).foldlM (fun m i => body.exec (s.load i m)) m = some m')
    (hrun : m.halted = false) :
    ∃ ms, Executes ws.toArray ((s.load i m).goto p.size) ms
        ((s.load s.count.toNat m').goto (s.closed p').size) ∧
      (∀ x ∈ ms, p.size ≤ x.pc ∧ x.pc < (s.closed p').size) ∧ m'.halted = false ∧
      (∀ r ∈ owned, m'.get r = m.get r) ∧
      List.Forall₂ (Begins q) ((List.range' i (n + 1)).flatMap fun i => (s, i) :: body.iterations)
        (ms.filter (·.pc ∈ p.size :: (heads ++ rest))) := by
  -- The last iteration falls through to the code behind the loop, all others jump back.
  induction n generalizing i m with
  | zero =>
    rw [List.range'_one, List.foldlM_cons] at hexec
    obtain ⟨m₁, hbody, hexec⟩ := Option.bind_eq_some_iff.1 hexec
    obtain rfl : m₁ = m' := Option.some.inj hexec
    obtain ⟨ms, hvisits, hexecutes, hrun', hget, hits⟩ :=
      h.iteration (by omega) hrest hbody hrun
    rw [if_neg (by omega), show i + 1 = s.count.toNat by omega] at hexecutes
    exact ⟨ms, hexecutes, hvisits.between, hrun', hget, by simpa using hits⟩
  | succ n ih =>
    rw [List.range'_succ, List.foldlM_cons] at hexec
    obtain ⟨m₁, hbody, hexec⟩ := Option.bind_eq_some_iff.1 hexec
    obtain ⟨ms, hvisits, hexecutes, hrun₁, hget, hits⟩ :=
      h.iteration (by omega) hrest hbody hrun
    obtain ⟨ms', hexecutes', hbetween, hrun', hget', hits'⟩ := ih (by omega) hexec hrun₁
    rw [if_pos (by omega)] at hexecutes
    refine ⟨ms ++ ms', hexecutes.trans hexecutes', fun x hx => ?_, hrun', fun r hr => ?_, ?_⟩
    · rcases List.mem_append.1 hx with hx | hx
      · exact hvisits.between x hx
      · exact hbetween x hx
    · rw [hget' r hr, hget r hr]
    · rw [List.range'_succ, List.flatMap_cons, List.filter_append]
      exact List.rel_append hits hits'

/-- Of the machines that a loop and what follows it pass through, those at a label are in the
iterations of the loop or at a label of what follows it. -/
theorem Placed.filter_heads (h : Placed q ws s body owned p p' heads) {ms ms' ms'' : List Machine}
    (hms : ∀ x ∈ ms, x.pc < p.size) (hms'' : ∀ x ∈ ms'', (s.closed p').size ≤ x.pc)
    (hrest : ∀ k ∈ rest, (s.closed p').size < k) :
    (ms ++ (ms' ++ ms'')).filter (·.pc ∈ p.size :: (heads ++ rest)) =
      ms'.filter (·.pc ∈ p.size :: (heads ++ rest)) ++ ms''.filter (·.pc ∈ rest) := by
  have hbody := h.extends_body.size_le
  have hclosed := s.size_lt_size_closed p'
  have hbefore : ms.filter (·.pc ∈ p.size :: (heads ++ rest)) = [] := by
    rw [List.filter_eq_nil_iff]
    intro x hx hmem
    have hlt := hms x hx
    simp only [List.mem_cons, List.mem_append, decide_eq_true_eq] at hmem
    rcases hmem with hmem | hmem | hmem
    · omega
    · have := h.heads _ hmem
      omega
    · have := hrest _ hmem
      omega
  have hbehind : ms''.filter (·.pc ∈ p.size :: (heads ++ rest)) = ms''.filter (·.pc ∈ rest) := by
    refine List.filter_congr fun x hx => ?_
    have hle := hms'' x hx
    have hnothead : x.pc ∉ heads := fun hmem => by have := h.heads _ hmem; omega
    simp [hnothead, show x.pc ≠ p.size by omega]
  rw [List.filter_append, List.filter_append, hbefore, hbehind, List.nil_append]

/-- **A loop and what follows it.** -/
theorem Placed.compiled (h : Placed q ws s body owned p p' heads) {outer : Program}
    {after : LoopNest} {hi : Nat} (hcount : s.count ≠ 0)
    (hloaded : (SweepGenerator.loaded outer s).Extends q)
    (hsize : (SweepGenerator.loaded outer s).size = p.size) (hlt : outer.size < p.size)
    (hafter : after.Compiled q ws owned (s.closed p').size hi rest)
    (hrest : ∀ k ∈ rest, (s.closed p').size < k) :
    (loop s body after).Compiled q ws owned outer.size hi (p.size :: (heads ++ rest)) := by
  intro m m' hexec hrun
  obtain ⟨m₁, hloop, hexec⟩ := Option.bind_eq_some_iff.1 hexec
  obtain ⟨ms, hload⟩ := SweepGenerator.passage_loaded h.encode h.valid hcount hloaded hrun
  rw [hsize] at hload
  -- A loop has a first iteration: its count is not zero.
  obtain ⟨n, hn⟩ := Nat.exists_eq_succ_of_ne_zero fun hzero => hcount (UInt32.toNat_inj.1 hzero)
  have hrange : List.range s.count.toNat = List.range' 0 (n + 1) := by
    rw [hn, List.range_eq_range']
  rw [hrange] at hloop
  obtain ⟨ms', hiterate, hbetween, hrun₁, hget, hits⟩ :=
    h.iterate hrest (by omega) hloop hrun
  obtain ⟨ms'', hpass, hrun', hget', hits'⟩ := hafter _ _ hexec (by simpa using hrun₁)
  have hbody := h.extends_body.size_le
  have hclosed := s.size_lt_size_closed p'
  have hrest' : ∀ x ∈ ms' ++ ms'', p.size ≤ x.pc ∧ x.pc < hi := by
    intro x hx
    have := hpass.le
    rcases List.mem_append.1 hx with hx | hx
    · have := hbetween x hx
      omega
    · have := hpass.visits.between x hx
      omega
  refine ⟨ms ++ (ms' ++ ms''), ⟨hload.executes.trans (hiterate.trans hpass.executes), ?_,
    hload.visits.append_of_lt hrest' hlt (by have := hpass.le; omega)⟩, hrun',
    fun r hr => ?_, ?_⟩
  · have := hpass.le
    omega
  · rw [hget' r hr, Sweep.get_load_of_not_mem h.valid (h.outer r hr).1 (h.outer r hr).2, hget r hr]
  · rw [h.filter_heads (fun x hx => (hload.visits.between x hx).2)
      (fun x hx => (hpass.visits.between x hx).1) hrest, iterations, hrange]
    exact List.rel_append hits hits'

/-- A loop that a generator has written is in its place. -/
theorem placed_of_emit {g inner inner' : SweepGenerator} (hq : q.encode = .ok ws)
    (henter : g.enter s = .ok inner) (hemit : body.emit inner = .ok inner')
    (hclosed : (inner'.leave g s).program.Extends q)
    (hnarrow : ∀ r ∈ s.registers, Isa.Narrow r.step)
    (hvalid : ∀ r ∈ owned, r.Valid) (hlive : ∀ r ∈ owned, r ∈ g.liveRegisters)
    (hbody : (∀ r ∈ s.owned, r.Valid) → body.Compiled q ws (s.owned ++ owned) inner.program.size
      inner'.program.size (inner.program.heads inner'.program)) :
    Placed q ws s body owned inner.program inner'.program
      (inner.program.heads inner'.program) := by
  obtain ⟨-, hfree, hnodup, -, hlabel⟩ := SweepGenerator.enter_eq_ok henter
  have howned := Sweep.valid_of_closed hq (fun r hr => (hfree r hr).1) hclosed
  exact {
    encode := hq
    valid := howned
    nodup := hnodup
    narrow := hnarrow
    extends_body := extends_emit hemit
    closed_extends := hclosed
    label := by
      have hinner := (extends_emit hemit).trans (SweepGenerator.grows_leave inner' g s).extends
      rw [Program.size_defineLabel hlabel]
      exact (hinner.trans hclosed).labelPc? (Program.labelPc?_defineLabel hlabel)
    body := hbody howned
    heads := heads_emit hemit
    outer := fun r hr => ⟨hvalid r hr, fun hmem => (hfree r hmem).2 (hlive r hr)⟩ }

/-- **What a generator writes for a nest does what the nest does.** -/
theorem compiled_emit {t : LoopNest} {g g' : SweepGenerator} (hq : q.encode = .ok ws)
    (hemit : t.emit g = .ok g') (hext : g'.program.Extends q) (hproper : t.Proper owned)
    (hvalid : ∀ r ∈ owned, r.Valid) (hlive : ∀ r ∈ owned, r ∈ g.liveRegisters) :
    t.Compiled q ws owned g.program.size g'.program.size (g.program.heads g'.program) := by
  induction t generalizing g g' owned with
  | done =>
    cases hemit
    rw [Program.heads_of_labels_eq rfl]
    exact compiled_done q ws owned _
  | code i comment rest ih =>
    rw [emit] at hemit
    obtain ⟨hs, hfree, hproper⟩ := hproper
    have hrest : (g.program.append i comment).Extends g'.program := extends_emit hemit
    have hheads := heads_emit hemit
    have hcompiled := ih hemit hext hproper hvalid hlive
    rw [Program.heads_trans (Program.extends_append ..) hrest,
      Program.heads_of_labels_eq (Program.labels_append ..), List.nil_append]
    rw [Program.size_append] at hheads hcompiled
    exact compiled_code hq hs hfree hvalid ((Program.at_append ..).extends (hrest.trans hext))
      (fun k hk => (hheads k hk).1) hcompiled
  | loop s body after ihbody ihafter =>
    obtain ⟨hnarrow, hbody, hafter⟩ := hproper
    obtain ⟨inner, inner', henter, hinner, hrest⟩ := emit_loop_eq_ok hemit
    obtain ⟨hcount, -, -, hinnerLive, hlabel⟩ := SweepGenerator.enter_eq_ok henter
    have hclosed := (extends_emit hrest).trans hext
    have hbodyExt := (SweepGenerator.grows_leave inner' g s).extends.trans hclosed
    have hopened :=
      (Program.extends_defineLabel hlabel).trans ((extends_emit hinner).trans hbodyExt)
    have hplaced := placed_of_emit hq henter hinner hclosed hnarrow hvalid hlive fun howned => by
      refine ihbody hinner hbodyExt hbody (fun r hr => ?_) fun r hr => ?_
      · rcases List.mem_append.1 hr with hr | hr
        · exact howned r hr
        · exact hvalid r hr
      · rw [hinnerLive, List.mem_append]
        rcases List.mem_append.1 hr with hr | hr
        · exact .inr hr
        · exact .inl (hlive r hr)
    have hlt := SweepGenerator.size_lt_size_loaded g.program s
    rw [← Program.size_defineLabel hlabel] at hlt
    rw [heads_loop henter hinner hrest]
    exact hplaced.compiled hcount hopened (Program.size_defineLabel hlabel).symm hlt
      (ihafter hrest hext hafter hvalid hlive) fun k hk => (heads_emit hrest k hk).1

/-- **Nested sweeps run as the nested loops they describe.**  If the generator answers without error
and the program, with an end, can be encoded, then under every limit that leaves enough steps the
emulator comes to the end, in the state that the loops have led to.  At labels it is once for each
iteration, in the order of the iterations, and there every swept register has the value it is meant
to have in the iteration. -/
theorem emit_runs {t : LoopNest} {g g' : SweepGenerator} {ws : List Word} {m : Machine}
    {comment : Option String} (hnew : g.program = {}) (hemit : t.emit g = .ok g')
    (hws : (g'.program.append .halt comment).encode = .ok ws) (hproper : t.Proper [])
    (hexec : t.exec {} = some m) :
    ∃ n, ∀ limit ≥ n,
      (Emulator.ofWords ws limit).run = (.ok (), { Emulator.ofWords ws limit with
        machine := { m with pc := ws.length, halted := true }, steps := n }) ∧
      List.Forall₂ (Begins g'.program) t.iterations ((Emulator.ofWords ws limit).visited.filter
        fun x => x.pc ∈ g'.program.labels.toList.map (·.2)) := by
  have hext := Program.extends_append g'.program .halt comment
  obtain ⟨ms, hpass, hrun, -, hits⟩ :=
    compiled_emit hws hemit hext hproper (by simp) (by simp) _ _ hexec rfl
  rw [hnew] at hpass hits
  have hend := Program.At.next?_halt hws (Program.at_append g'.program .halt comment) hrun
  have hlength := Program.length_encode hws
  rw [Program.size_append] at hlength
  rw [← hlength] at hend
  have hexecutes : Executes ws.toArray {} (ms ++ [m.goto g'.program.size])
      { m with pc := ws.length, halted := true } := hpass.executes.trans (.single hend)
  refine ⟨ms.length + 1, fun limit hlimit => ?_⟩
  obtain ⟨hresult, hvisited⟩ := Emulator.run_of_executes (e := Emulator.ofWords ws limit) hexecutes
    rfl (by simpa [Emulator.ofWords] using hlimit)
  refine ⟨by simpa [Emulator.ofWords] using hresult, ?_⟩
  -- The last machine stands behind the nest, where none of its labels is.
  have hnotlast : g'.program.size ∉ g'.program.labels.toList.map (·.2) := fun hmem => by
    have := heads_emit hemit _ (by rw [hnew]; exact hmem)
    omega
  have hend' : [m.goto g'.program.size].filter
      (fun x => x.pc ∈ g'.program.labels.toList.map (·.2)) = [] :=
    List.filter_cons_of_neg (mt of_decide_eq_true hnotlast)
  rw [hvisited, List.filter_append, hend', List.append_nil]
  exact hits

/-- A sweep inside another one.  The inner register has eight bits, and wraps around. -/
def grid : LoopNest :=
  .loop { name := "freq", count := 2, counter := ⟨0, 14⟩,
          registers := [{ register := ⟨0, 16⟩, start := 3000000000, step := -50, width := 31 }] }
    (.loop { name := "gain", count := 2, counter := ⟨0, 15⟩,
             registers := [{ register := ⟨1, 19⟩, start := 250, step := 7, width := 8 }] }
      (.code (.seti 1 0 16 0) none (.code (.seti 2 1 19 0) none .done))
      (.code (.synci 100) none .done))
    .done

theorem emit_runs_grid : ∃ g' ws m, grid.emit {} = .ok g' ∧
    (g'.program.append .halt).encode = .ok ws ∧ grid.Proper [] ∧ grid.exec {} = some m ∧
    m.events = #[.seti 1 0 852516352, .seti 2 0 250, .seti 1 0 852516352, .seti 2 0 1,
      .seti 1 100 852516302, .seti 2 100 250, .seti 1 100 852516302, .seti 2 100 1] ∧
    ∃ n, ∀ limit ≥ n,
      (Emulator.ofWords ws limit).run = (.ok (), { Emulator.ofWords ws limit with
        machine := { m with pc := ws.length, halted := true }, steps := n }) ∧
      List.Forall₂ (Begins g'.program) grid.iterations ((Emulator.ofWords ws limit).visited.filter
        fun x => x.pc ∈ g'.program.labels.toList.map (·.2)) := by
  obtain ⟨g', ws, hemit, hws⟩ : ∃ g' ws, grid.emit {} = .ok g' ∧
      (g'.program.append .halt).encode = .ok ws := ⟨_, _, rfl, rfl⟩
  have hproper : grid.Proper [] := by decide
  have hevents : (grid.exec {}).map (·.events) = some #[.seti 1 0 852516352, .seti 2 0 250,
      .seti 1 0 852516352, .seti 2 0 1, .seti 1 100 852516302, .seti 2 100 250,
      .seti 1 100 852516302, .seti 2 100 1] := by decide +kernel
  obtain ⟨m, hexec, hevents⟩ := Option.map_eq_some_iff.1 hevents
  exact ⟨g', ws, m, hemit, hws, hproper, hexec, hevents, emit_runs rfl hemit hws hproper hexec⟩

end LoopNest
end PulseProcessor
