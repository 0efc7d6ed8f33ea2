import PulseProcessor.Proofs.Assembly.Additions
import PulseProcessor.Proofs.Sweep.Execution

/-! # Loops with invariants

A sweep that stands in a program (`Sweep.Stands`) is executed lap by lap: the body, the stepping of
its registers, the jump.  What is to be known of the laps is left to an invariant `Inv i m seen` of
the number of laps, the machine behind the latest body, and all machines that the run has passed
through so far, those in front of the loop included.  So an invariant can speak of what has happened
on the way, such as the words that have been stored, and one loop can hand it on to another.

An invariant that each lap keeps (`Sweep.Keeps`) is kept by the loop (`Sweep.Stands.passage`).
-/

namespace PulseProcessor
namespace Sweep

open Machine (Executes Passage Visits)

/-- The laps of a loop, `body` being what its body does.  After the last lap the registers have been
stepped once more. -/
def repeats (s : Sweep) (body : Machine → Option Machine) (m : Machine) : Option Machine := do
  let m ← (List.range s.count.toNat).foldlM (fun m i => body (s.load i m)) m
  return s.load s.count.toNat m

/-- **A loop whose laps do not fail does not fail**, and keeps what they keep. -/
theorem exists_repeats (s : Sweep) (body : Machine → Option Machine) (Inv : Nat → Machine → Prop)
    {m : Machine} (hinv : Inv 0 m) (hlap : ∀ i < s.count.toNat, ∀ x, Inv i x →
      ∃ x', body (s.load i x) = some x' ∧ Inv (i + 1) x') :
    ∃ m', s.repeats body m = some (s.load s.count.toNat m') ∧ Inv s.count.toNat m' := by
  have hlaps (n : Nat) (hn : n ≤ s.count.toNat) :
      ∃ m', (List.range n).foldlM (fun m i => body (s.load i m)) m = some m' ∧ Inv n m' := by
    induction n with
    | zero => exact ⟨m, rfl, hinv⟩
    | succ n ih =>
      obtain ⟨x, hx, hinv'⟩ := ih (by omega)
      obtain ⟨x', hx', hinv''⟩ := hlap n (by omega) x hinv'
      exact ⟨x', by rw [List.range_succ, List.foldlM_append, hx]; simpa using hx', hinv''⟩
  obtain ⟨m', hm', hinv'⟩ := hlaps s.count.toNat (Nat.le_refl _)
  exact ⟨m', by rw [repeats, hm']; rfl, hinv'⟩

/-- **A loop and its place in a program `q`.**  Its code begins where `outer` ends; `p` is the
program at its label, and `p'` the one behind its body. -/
structure Stands (s : Sweep) (q : Program) (ws : List Word) (outer p p' : Program) : Prop where
  encode : q.encode = .ok ws
  count_ne : s.count ≠ 0
  valid : ∀ r ∈ s.owned, r.Valid
  nodup : s.owned.Nodup
  narrow : ∀ r ∈ s.registers, Isa.Narrow r.step
  label : (SweepGenerator.loaded outer s).defineLabel s.name = .ok p
  body : p.Extends p'
  closed : (s.closed p').Extends q

/-- **Each lap keeps the invariant.**  The code of the body does what `body` does and leaves the
loop's own registers alone; whatever is passed through between the body and the next lap makes no
difference. -/
def Keeps (s : Sweep) (ws : List Word) (p p' : Program) (body : Machine → Option Machine)
    (Inv : Nat → Machine → List Machine → Prop) : Prop :=
  ∀ i m m' seen, i < s.count.toNat → body (s.load i m) = some m' → m.halted = false →
    Inv i m seen → ∃ ms, Passage ws.toArray (s.load i m) p.size m' p'.size ms ∧
      m'.halted = false ∧ (∀ r ∈ s.owned, m'.get r = (s.load i m).get r) ∧
      ∀ ms', (∀ x ∈ ms', p'.size ≤ x.pc ∧ x.pc < (s.closed p').size) →
        Inv (i + 1) m' (seen ++ (ms ++ ms'))

variable {s : Sweep} {q outer p p' : Program} {ws : List Word} {i : Nat} {m m' : Machine}
  {seen : List Machine} {body : Machine → Option Machine}
  {Inv : Nat → Machine → List Machine → Prop}

/-- The end of a loop stores nothing. -/
theorem addsOnly_closed (s : Sweep) (p : Program) :
    Program.AddsOnly (·.stores = false) p (s.closed p) :=
  (SweepGenerator.addsOnly_leave ⟨p, []⟩ ⟨p, []⟩ s).mono fun _ => Instruction.Writes.stores_eq

namespace Stands

/-- A loop stands where a generator has opened and closed it. -/
theorem of_enter {g inner : SweepGenerator} (hq : q.encode = .ok ws)
    (henter : g.enter s = .ok inner) (hnarrow : ∀ r ∈ s.registers, Isa.Narrow r.step)
    (hbody : inner.program.Extends p') (hclosed : (s.closed p').Extends q) :
    s.Stands q ws g.program inner.program p' := by
  obtain ⟨hcount, hfree, hnodup, -, hlabel⟩ := SweepGenerator.enter_eq_ok henter
  exact ⟨hq, hcount, valid_of_closed hq (fun r hr => (hfree r hr).1) hclosed, hnodup, hnarrow,
    hlabel, hbody, hclosed⟩

theorem size_eq (h : s.Stands q ws outer p p') : (SweepGenerator.loaded outer s).size = p.size :=
  (Program.size_defineLabel h.label).symm

theorem outer_lt (h : s.Stands q ws outer p p') : outer.size < p.size := by
  rw [← h.size_eq]
  exact SweepGenerator.size_lt_size_loaded outer s

theorem extends_open (h : s.Stands q ws outer p p') : p.Extends q :=
  h.body.trans ((s.addsOnly_closed p').toExtends.trans h.closed)

/-- In front of its label a loop stores nothing. -/
theorem addsOnly (h : s.Stands q ws outer p p') : Program.AddsOnly (·.stores = false) outer p :=
  ((SweepGenerator.addsOnly_loaded outer s).trans (.of_defineLabel h.label)).mono fun _ =>
    Instruction.Writes.stores_eq

theorem head (h : s.Stands q ws outer p p') : q.labelPc? s.name = some p.size := by
  rw [← h.size_eq]
  exact h.extends_open.labelPc? (Program.labelPc?_defineLabel h.label)

/-- **One lap.** -/
theorem lap (h : s.Stands q ws outer p p') (hkeeps : s.Keeps ws p p' body Inv)
    (hi : i < s.count.toNat) (hbody : body (s.load i m) = some m') (hrun : m.halted = false)
    (hinv : Inv i m seen) :
    ∃ ms, Executes ws.toArray ((s.load i m).goto p.size) ms ((s.load (i + 1) m').goto
        (if i + 1 < s.count.toNat then p.size else (s.closed p').size)) ∧
      (∀ x ∈ ms, p.size ≤ x.pc ∧ x.pc < (s.closed p').size) ∧ m'.halted = false ∧
      Inv (i + 1) m' (seen ++ ms) := by
  obtain ⟨ms, hms, hrun', hsame, hnext⟩ := hkeeps i m m' seen hi hbody hrun hinv
  obtain ⟨ms', -, hvisits, hjump⟩ := exists_next h.encode h.valid h.nodup h.narrow h.closed h.head
    hi hrun'
    (fun r hr => by
      rw [hsame _ (List.mem_cons_of_mem _ (List.mem_map_of_mem hr))]
      exact get_load h.valid h.nodup r hr)
    (by
      rw [hsame _ (List.mem_cons_self ..)]
      exact get_load_counter (h.valid _ (List.mem_cons_self ..)))
  have hall := hms.visits.append hvisits hms.le (Nat.le_of_lt (s.size_lt_size_closed p'))
  exact ⟨ms ++ ms', hms.executes.trans hjump, hall.between, hrun', hnext ms' hvisits.between⟩

/-- **All laps from one on.** -/
theorem laps (h : s.Stands q ws outer p p') (hkeeps : s.Keeps ws p p' body Inv) {n : Nat}
    (hn : i + (n + 1) = s.count.toNat)
    (hlaps : (List.range' i (n + 1)).foldlM (fun m i => body (s.load i m)) m = some m')
    (hrun : m.halted = false) (hinv : Inv i m seen) :
    ∃ ms, Executes ws.toArray ((s.load i m).goto p.size) ms
        ((s.load s.count.toNat m').goto (s.closed p').size) ∧
      (∀ x ∈ ms, p.size ≤ x.pc ∧ x.pc < (s.closed p').size) ∧ m'.halted = false ∧
      Inv s.count.toNat m' (seen ++ ms) := by
  -- The last lap falls through to the code behind the loop, all others jump back.
  induction n generalizing i m seen with
  | zero =>
    rw [List.range'_one, List.foldlM_cons] at hlaps
    obtain ⟨m₁, hbody, hlaps⟩ := Option.bind_eq_some_iff.1 hlaps
    obtain rfl : m₁ = m' := Option.some.inj hlaps
    obtain ⟨ms, hexecutes, hbetween, hrun', hinv'⟩ := h.lap hkeeps (by omega) hbody hrun hinv
    rw [show i + 1 = s.count.toNat by omega] at hinv'
    rw [if_neg (by omega), show i + 1 = s.count.toNat by omega] at hexecutes
    exact ⟨ms, hexecutes, hbetween, hrun', hinv'⟩
  | succ n ih =>
    rw [List.range'_succ, List.foldlM_cons] at hlaps
    obtain ⟨m₁, hbody, hlaps⟩ := Option.bind_eq_some_iff.1 hlaps
    obtain ⟨ms, hexecutes, hbetween, hrun₁, hinv₁⟩ := h.lap hkeeps (by omega) hbody hrun hinv
    obtain ⟨ms', hexecutes', hbetween', hrun', hinv'⟩ := ih (by omega) hlaps hrun₁ hinv₁
    rw [if_pos (by omega)] at hexecutes
    refine ⟨ms ++ ms', hexecutes.trans hexecutes', fun x hx => ?_, hrun', ?_⟩
    · rcases List.mem_append.1 hx with hx | hx
      · exact hbetween x hx
      · exact hbetween' x hx
    · rwa [List.append_assoc] at hinv'

variable (seen) in
/-- **A loop keeps what its laps keep**, if the code in front of its label does. -/
theorem passage (h : s.Stands q ws outer p p') (hkeeps : s.Keeps ws p p' body Inv)
    (hrepeats : s.repeats body m = some m') (hrun : m.halted = false)
    (hinv : ∀ ms, (∀ x ∈ ms, outer.size ≤ x.pc ∧ x.pc < p.size) → Inv 0 m (seen ++ ms)) :
    ∃ m₁ ms, m' = s.load s.count.toNat m₁ ∧
      Passage ws.toArray m outer.size m' (s.closed p').size ms ∧ m'.halted = false ∧
      Inv s.count.toNat m₁ (seen ++ ms) := by
  obtain ⟨m₁, hlaps, hm'⟩ := Option.bind_eq_some_iff.1 hrepeats
  obtain rfl : s.load s.count.toNat m₁ = m' := Option.some.inj hm'
  obtain ⟨ms, hload⟩ := SweepGenerator.passage_loaded h.encode h.valid h.count_ne
    ((Program.extends_defineLabel h.label).trans h.extends_open) hrun
  rw [h.size_eq] at hload
  -- A loop has a first lap: its count is not zero.
  obtain ⟨n, hn⟩ := Nat.exists_eq_succ_of_ne_zero fun hzero => h.count_ne (UInt32.toNat_inj.1 hzero)
  have hrange : List.range s.count.toNat = List.range' 0 (n + 1) := by
    rw [hn, List.range_eq_range']
  rw [hrange] at hlaps
  obtain ⟨ms', hexecutes, hbetween, hrun', hinv'⟩ :=
    h.laps hkeeps (by omega) hlaps hrun (hinv ms hload.visits.between)
  have hle := h.body.size_le
  have hclosed := s.size_lt_size_closed p'
  have houter := h.outer_lt
  refine ⟨m₁, ms ++ ms', rfl, ⟨hload.executes.trans hexecutes, by omega,
    hload.visits.append_of_lt hbetween houter (by omega)⟩, by simpa using hrun', ?_⟩
  rwa [List.append_assoc] at hinv'

end Stands
end Sweep
end PulseProcessor
