import PulseProcessor.Proofs.Averager.Layout

/-! # Shots and their counts

One shot of an averaging program is the code of the body and a count behind it.  What ties the loops
together is `AveragerConfig.Counted k seen`: among the machines seen so far, `k` stood at the body's
beginning, the swept registers being those of their shots, and what has been stored are the counts
from 1 to `k`.  One shot takes `k` to `k + 1`; the code of the loops neither stores anything nor
comes to the body's beginning; so the inner loop adds `reps` shots
(`AveragerConfig.Shooting.passage_repeatShots`), and the outer one as many for each of its points.

The count itself is in the shot register, which the body must leave alone, together with the
registers of both loops (`AveragerConfig.Tolerates`).
-/

namespace PulseProcessor
namespace AveragerConfig

open Machine (Passage)
open Program (AddsOnly)

/-! ### Counts -/

/-- **Code that a body may consist of**: straight-line code that does not write data memory, and of
the registers none that the program needs for itself. -/
structure Tolerates (c : AveragerConfig) (code : List Instruction) : Prop where
  straight : ∀ i ∈ code, i.Straight
  stores : ∀ i ∈ code, i.stores = false
  free : ∀ i ∈ code, ∀ r ∈ i.destination?, r ∉ c.needed

/-- At the beginning of shot `k` each swept register has its value at the shot's sweep point. -/
def Ready (c : AveragerConfig) (k : Nat) (x : Machine) : Prop :=
  ∀ (j : Nat) r, c.swept[j]? = some r →
    c.exptPoints[j]?.bind (·[k / c.reps.toNat]?) = some (x.get r.register)

/-- **Of the machines seen, `k` were at the body's beginning, and `k` counts have been stored.** -/
structure Counted (c : AveragerConfig) (ws : List Word) (head k : Nat) (seen : List Machine) :
    Prop where
  starts : List.Forall₂ c.Ready (List.range k) (seen.filter (·.pc = head))
  stores : seen.filterMap (Machine.stored? ws.toArray) =
    (List.range k).map fun k => (c.counterAddr.toNat, .ofNat (k + 1))

variable {c : AveragerConfig} {ws : List Word} {q outer p p' : Program} {head k : Nat}
  {seen ms : List Machine} {code : List Instruction} {m m' : Machine}

namespace Counted

theorem nil : c.Counted ws head 0 [] := ⟨.nil, rfl⟩

/-- Machines that are elsewhere and store nothing do not count. -/
theorem quiet (h : c.Counted ws head k seen) (hhead : ∀ x ∈ ms, x.pc ≠ head)
    (hstores : ∀ x ∈ ms, x.stored? ws.toArray = none) : c.Counted ws head k (seen ++ ms) where
  starts := by
    have hnone : ms.filter (·.pc = head) = [] :=
      List.filter_eq_nil_iff.2 fun x hx => by simpa using hhead x hx
    rw [List.filter_append, hnone, List.append_nil]
    exact h.starts
  stores := by
    rw [List.filterMap_append, List.filterMap_eq_nil_iff.2 hstores, List.append_nil]
    exact h.stores

/-- One more shot. -/
theorem shot (h : c.Counted ws head k seen) {x : Machine}
    (hstarts : ms.filter (·.pc = head) = [x]) (hready : c.Ready k x)
    (hstores : ms.filterMap (Machine.stored? ws.toArray) =
      [(c.counterAddr.toNat, .ofNat (k + 1))]) : c.Counted ws head (k + 1) (seen ++ ms) where
  starts := by
    rw [List.filter_append, hstarts, List.range_succ]
    exact List.rel_append h.starts (.cons hready .nil)
  stores := by
    rw [List.filterMap_append, hstores, h.stores, List.range_succ, List.map_append]
    rfl

/-- Machines in front of everything that counts make no difference. -/
theorem behind (h : c.Counted ws head k seen) {lo : Nat} (hms : ∀ x ∈ ms, x.pc < lo)
    (hlo : lo ≤ head) (hseen : ∀ x ∈ seen, lo ≤ x.pc) :
    List.Forall₂ c.Ready (List.range k) ((ms ++ seen).filter (·.pc = head)) ∧
      ((ms ++ seen).filter (lo ≤ ·.pc)).filterMap (Machine.stored? ws.toArray) =
        (List.range k).map fun k => (c.counterAddr.toNat, .ofNat (k + 1)) := by
  have hstarts : ms.filter (·.pc = head) = [] := List.filter_eq_nil_iff.2 fun x hx => by
    have := hms x hx
    simp only [decide_eq_true_eq]
    omega
  have hfirst : ms.filter (lo ≤ ·.pc) = [] := List.filter_eq_nil_iff.2 fun x hx => by
    simpa using hms x hx
  have hrest : seen.filter (lo ≤ ·.pc) = seen := List.filter_eq_self.2 fun x hx => by
    simpa using hseen x hx
  rw [List.filter_append, List.filter_append, hstarts, hfirst, hrest]
  exact ⟨h.starts, h.stores⟩

end Counted

/-- The code between two places stores nothing. -/
theorem stored?_eq_none_of_addsOnly (hq : q.encode = .ok ws)
    (h : AddsOnly (·.stores = false) p p') (hp' : p'.Extends q) {lo hi : Nat} (hlo : p.size ≤ lo)
    (hhi : hi ≤ p'.size) (hms : ∀ x ∈ ms, lo ≤ x.pc ∧ x.pc < hi) :
    ∀ x ∈ ms, x.stored? ws.toArray = none := fun x hx =>
  Machine.stored?_eq_none hq fun _ hat => by
    have := hms x hx
    exact h.between hp' (by omega) (by omega) hat

/-- The first machine of a stretch is alone at the stretch's beginning. -/
theorem filter_first {lo hi : Nat} {x : Machine} {tail rest : List Machine}
    (hvisits : Machine.Visits lo hi (x.goto lo :: tail)) (hrest : ∀ y ∈ rest, lo < y.pc) :
    (x.goto lo :: tail ++ rest).filter (·.pc = lo) = [x.goto lo] := by
  rw [List.cons_append, List.filter_cons_of_pos (by simp), List.cons_inj_right,
    List.filter_eq_nil_iff]
  intro y hy
  have : lo < y.pc := (List.mem_append.1 hy).elim (hvisits.once y) (hrest y)
  simp only [decide_eq_true_eq]
  omega

/-- The registers that the outer sweep steps are its own. -/
theorem mem_exptOwned (c : AveragerConfig) : ∀ r ∈ c.swept, r.register ∈ c.exptOwned := by
  intro r hr
  cases hexpts : c.expts with
  | none => simp [swept, hexpts] at hr
  | some s =>
    rw [swept, hexpts] at hr
    rw [exptOwned, hexpts]
    exact List.mem_cons_of_mem _ (List.mem_map_of_mem hr)

/-! ### One shot -/

/-- **The loop over repetitions, with its body, in a program.**  Its code begins where `outer` ends,
`p` is the program at its label, and `p'` the one behind the code of the body.  The body leaves the
registers of the loops alone; the shot register it may write. -/
structure Looping (c : AveragerConfig) (q : Program) (ws : List Word) (code : List Instruction)
    (outer p p' : Program) : Prop where
  stands : c.repsSweep.Stands q ws outer p (c.publish p')
  emits : p.Emits code p'
  addr : c.counterAddr.toNat < 1024
  spares : ∀ i ∈ code, i.Spares (c.repsRegister :: c.exptOwned)
  valid : ∀ r ∈ c.needed, r.Valid
  nodup : c.needed.Nodup

/-- **The same, for a body that does not get in the way of the count.** -/
structure Shooting (c : AveragerConfig) (q : Program) (ws : List Word) (code : List Instruction)
    (outer p p' : Program) : Prop extends c.Looping q ws code outer p p' where
  code : c.Tolerates code

theorem size_publish (c : AveragerConfig) (p' : Program) : (c.publish p').size = p'.size + 2 := by
  simp [publish_eq]

theorem extends_publish (c : AveragerConfig) (p' : Program) : p'.Extends (c.publish p') := by
  rw [publish_eq]
  exact (Program.extends_append ..).trans (Program.extends_append ..)

namespace Looping

theorem valid_shot (h : c.Looping q ws code outer p p') : c.shotRegister.Valid :=
  h.valid _ (List.mem_cons_self ..)

/-- The loops have no use for the shot register. -/
theorem shot_ne (h : c.Looping q ws code outer p p') :
    ∀ r ∈ c.repsRegister :: c.exptOwned, c.shotRegister ≠ r := fun _ hr heq =>
  (List.nodup_cons.1 h.nodup).1 (heq ▸ hr)

/-- Its own counter is all that the loop over repetitions loads. -/
theorem get_load (h : c.Looping q ws code outer p p') :
    ∀ r ∈ c.shotRegister :: c.exptOwned, ∀ i x, (c.repsSweep.load i x).get r = x.get r := by
  intro r hr i x
  refine Sweep.get_load_of_not_mem h.stands.valid (h.valid r ?_) fun hmem => ?_
  · rcases List.mem_cons.1 hr with rfl | hr
    · exact List.mem_cons_self ..
    · exact List.mem_cons_of_mem _ (List.mem_cons_of_mem _ hr)
  · obtain rfl : r = c.repsRegister := List.mem_singleton.1 hmem
    rcases List.mem_cons.1 hr with heq | hr
    · exact h.shot_ne _ (List.mem_cons_self ..) heq.symm
    · exact (List.nodup_cons.1 (List.nodup_cons.1 h.nodup).2).1 hr

theorem extends_closed (h : c.Looping q ws code outer p p') : (c.publish p').Extends q :=
  (c.repsSweep.addsOnly_closed _).toExtends.trans h.stands.closed

theorem at_count (h : c.Looping q ws code outer p p') :
    q.At p'.size (.mathi c.shotRegister.page c.shotRegister.number c.shotRegister.number
      (.known .add) 1) ∧
    q.At (p'.size + 1) (.memwi c.shotRegister.page c.shotRegister.number c.counterAddr.toNat) := by
  have hext := h.extends_closed
  rw [publish_eq] at hext
  refine ⟨(Program.at_append ..).extends ((Program.extends_append ..).trans hext), ?_⟩
  simpa using (Program.at_append ..).extends hext

/-- **The count behind the body.** -/
theorem passage_count (h : c.Looping q ws code outer p p') (hrun : m.halted = false) :
    ∃ ms, Passage ws.toArray m p'.size (c.count m) (c.publish p').size ms ∧
      ms.filterMap (Machine.stored? ws.toArray) =
        [(c.counterAddr.toNat, m.get c.shotRegister + 1)] := by
  obtain ⟨hadd, hstore⟩ := h.at_count
  have hnext := hadd.next?_mathi h.stands.encode hrun
  have hnext' := hstore.next?_memwi h.stands.encode h.addr
    (m := m.put c.shotRegister (m.get c.shotRegister + 1)) (by simpa using hrun)
  rw [size_publish, count, dif_pos h.addr]
  refine ⟨_, (Passage.single hnext).trans (.single hnext'), ?_⟩
  have hnone := Machine.stored?_goto_eq_none (m := m) h.stands.encode hadd rfl
  have hsome := Machine.stored?_memwi (m := m.put c.shotRegister (m.get c.shotRegister + 1))
    h.stands.encode hstore h.addr
  rw [Machine.get_put_self h.valid_shot] at hsome
  simp [hnone, hsome]

theorem get_count (h : c.Looping q ws code outer p p') (m : Machine) (r : Register) :
    (c.count m).get r = (m.put c.shotRegister (m.get c.shotRegister + 1)).get r := by
  rw [count, dif_pos h.addr]
  rfl

/-- **One shot**: the body's code and the count. -/
theorem passage_shoot (h : c.Looping q ws code outer p p') (hshoot : c.shoot code m = some m')
    (hrun : m.halted = false) :
    ∃ m₁ ms ms', m' = c.count m₁ ∧ Passage ws.toArray m p.size m₁ p'.size ms ∧
      Passage ws.toArray m₁ p'.size m' (c.publish p').size ms' ∧ m'.halted = false ∧
      (∀ r ∈ c.repsRegister :: c.exptOwned, m'.get r = m.get r) ∧
      (∀ r : Register, r.Valid → (∀ i ∈ code, i.destination? ≠ some r) → m₁.get r = m.get r) ∧
      ms'.filterMap (Machine.stored? ws.toArray) =
        [(c.counterAddr.toNat, m₁.get c.shotRegister + 1)] := by
  obtain ⟨m₁, hperform, rfl⟩ := Option.map_eq_some_iff.1 hshoot
  have hext := (extends_publish c p').trans h.extends_closed
  obtain ⟨ms, hms, hrun₁, hget⟩ := Program.passage_performAll h.stands.encode
    (fun i hi => (h.spares i hi).straight) (fun k i hi => (h.emits.at_add hi).extends hext) hrun
    hperform
  rw [← h.emits.size_eq] at hms
  obtain ⟨ms', hms', hcount⟩ := h.passage_count hrun₁
  refine ⟨m₁, ms, ms', rfl, hms, hms', ?_, fun r hr => ?_, hget, hcount⟩
  · rw [count, dif_pos h.addr]
    simpa using hrun₁
  · have hvalid := h.valid r (List.mem_cons_of_mem _ hr)
    rw [h.get_count, Machine.get_put_of_ne h.valid_shot hvalid (h.shot_ne r hr)]
    exact hget r hvalid fun i hi hdest => (h.spares i hi).free r hdest hr

/-- **All repetitions at one point of the outer sweep.** -/
theorem passage_repeatShots (h : c.Looping q ws code outer p p')
    (hrepeat : c.repeatShots code m = some m') (hrun : m.halted = false) :
    ∃ ms, Passage ws.toArray m outer.size m' (c.repsSweep.closed (c.publish p')).size ms ∧
      m'.halted = false ∧ ∀ r ∈ c.exptOwned, m'.get r = m.get r := by
  have hkeeps : c.repsSweep.Keeps ws p (c.publish p') (c.shoot code) fun _ x _ =>
      ∀ r ∈ c.exptOwned, x.get r = m.get r := by
    intro i x x' seen hi hshoot hrun hsame
    obtain ⟨m₁, ms, ms', -, hms, hms', hrun', hspared, -⟩ :=
      h.passage_shoot hshoot (by simpa using hrun)
    refine ⟨_, hms.trans hms', hrun', fun r hr => ?_, fun _ _ r hr => ?_⟩
    · obtain rfl : r = c.repsRegister := List.mem_singleton.1 hr
      exact hspared _ (List.mem_cons_self ..)
    · rw [hspared r (List.mem_cons_of_mem _ hr), h.get_load r (List.mem_cons_of_mem _ hr),
        hsame r hr]
  obtain ⟨m₁, ms, rfl, hms, hrun', hsame⟩ :=
    h.stands.passage [] hkeeps hrepeat hrun fun _ _ _ _ => rfl
  refine ⟨ms, hms, hrun', fun r hr => ?_⟩
  rw [h.get_load r (List.mem_cons_of_mem _ hr), hsame r hr]

end Looping

namespace Shooting

/-- **One shot**: the body's code and the count. -/
theorem passage_shoot (h : c.Shooting q ws code outer p p') (hshoot : c.shoot code m = some m')
    (hrun : m.halted = false) :
    ∃ ms, Passage ws.toArray m p.size m' (c.publish p').size ms ∧ m'.halted = false ∧
      (∀ r ∈ c.repsRegister :: c.exptOwned, m'.get r = m.get r) ∧
      m'.get c.shotRegister = m.get c.shotRegister + 1 ∧
      ms.filterMap (Machine.stored? ws.toArray) =
        [(c.counterAddr.toNat, m.get c.shotRegister + 1)] := by
  obtain ⟨m₁, ms, ms', rfl, hms, hms', hrun', hspared, hget, hcount⟩ :=
    h.toLooping.passage_shoot hshoot hrun
  have hshot : m₁.get c.shotRegister = m.get c.shotRegister :=
    hget _ h.valid_shot fun i hi hdest => h.code.free i hi _ hdest (List.mem_cons_self ..)
  have hsilent := stored?_eq_none_of_addsOnly h.stands.encode (h.emits.addsOnly h.code.stores)
    ((extends_publish c p').trans h.extends_closed) (Nat.le_refl _) (Nat.le_refl _)
    hms.visits.between
  refine ⟨ms ++ ms', hms.trans hms', hrun', hspared, ?_, ?_⟩
  · rw [h.get_count, Machine.get_put_self h.valid_shot, hshot]
  · rw [List.filterMap_append, List.filterMap_eq_nil_iff.2 hsilent, hcount, hshot, List.nil_append]

/-! ### All shots of one sweep point -/

/-- The values of the outer sweep at one of its points are those of its shots. -/
theorem ready {i j : Nat} (hi : i < c.reps.toNat) (hj : j < c.exptCount) {x : Machine}
    (hx : ∀ r ∈ c.swept, x.get r.register = r.value j) : c.Ready (j * c.reps.toNat + i) x := by
  intro n r hr
  have hdiv : (j * c.reps.toNat + i) / c.reps.toNat = j := by
    rw [Nat.mul_comm, Nat.mul_add_div (by omega), Nat.div_eq_of_lt hi, Nat.add_zero]
  rw [hx r (List.mem_of_getElem? hr), hdiv]
  cases hexpts : c.expts with
  | none => simp [swept, hexpts] at hr
  | some s =>
    rw [swept, hexpts] at hr
    rw [exptCount, hexpts] at hj
    simp [exptPoints, hexpts, Sweep.points, hr, hj]

/-- **One more lap of the loop over repetitions is one more shot.** -/
theorem keeps (h : c.Shooting q ws code outer p p') {j : Nat} (hj : j < c.exptCount)
    (hm : ∀ r ∈ c.swept, m.get r.register = r.value j) :
    c.repsSweep.Keeps ws p (c.publish p') (c.shoot code) fun i x seen =>
      x.get c.shotRegister = .ofNat (j * c.reps.toNat + i) ∧
        (∀ r ∈ c.exptOwned, x.get r = m.get r) ∧
        c.Counted ws p.size (j * c.reps.toNat + i) seen := by
  intro i x x' seen hi hshoot hrun ⟨hshot, hsame, hcounted⟩
  have hload := fun r hr => h.get_load r hr i x
  obtain ⟨ms, hms, hrun', hsame', hshot', hstores⟩ := h.passage_shoot hshoot (by simpa using hrun)
  rw [hload _ (List.mem_cons_self ..), hshot] at hshot' hstores
  refine ⟨ms, hms, hrun', fun r hr => ?_, fun ms' hms' => ⟨?_, fun r hr => ?_, ?_⟩⟩
  · obtain rfl : r = c.repsRegister := List.mem_singleton.1 hr
    exact hsame' _ (List.mem_cons_self ..)
  · rw [hshot', ← Nat.add_assoc, UInt32.ofNat_add _ 1]
    rfl
  · rw [hsame' r (List.mem_cons_of_mem _ hr), hload r (List.mem_cons_of_mem _ hr), hsame r hr]
  · -- The lap begins with the only machine at the body's beginning.
    have hne : ms ≠ [] := fun hnil => by simp [hnil] at hstores
    obtain ⟨tail, rfl⟩ := hms.executes.exists_cons hne
    have hsize := h.emits.toExtends.size_le
    have hquiet := stored?_eq_none_of_addsOnly h.stands.encode (c.repsSweep.addsOnly_closed _)
      h.stands.closed (Nat.le_refl _) (Nat.le_refl _) hms'
    refine hcounted.shot (x := (c.repsSweep.load i x).goto p.size) ?_ ?_ ?_
    · refine filter_first hms.visits fun y hy => ?_
      have := hms' y hy
      rw [size_publish] at this
      omega
    · refine ready hi hj fun r hr => ?_
      have hr' := c.mem_exptOwned r hr
      show (c.repsSweep.load i x).get r.register = _
      rw [hload _ (List.mem_cons_of_mem _ hr'), hsame _ hr', hm r hr]
    · rw [List.filterMap_append, List.filterMap_eq_nil_iff.2 hquiet, hstores, List.append_nil,
        UInt32.ofNat_add _ 1]
      rfl

/-- **The shots of one sweep point.** -/
theorem passage_repeatShots (h : c.Shooting q ws code outer p p') {j : Nat} (hj : j < c.exptCount)
    (hrepeat : c.repeatShots code m = some m') (hrun : m.halted = false)
    (hm : ∀ r ∈ c.swept, m.get r.register = r.value j)
    (hshot : m.get c.shotRegister = .ofNat (j * c.reps.toNat))
    (hcounted : c.Counted ws p.size (j * c.reps.toNat) seen) :
    ∃ ms, Passage ws.toArray m outer.size m' (c.repsSweep.closed (c.publish p')).size ms ∧
      m'.halted = false ∧ (∀ r ∈ c.exptOwned, m'.get r = m.get r) ∧
      m'.get c.shotRegister = .ofNat ((j + 1) * c.reps.toNat) ∧
      c.Counted ws p.size ((j + 1) * c.reps.toNat) (seen ++ ms) := by
  obtain ⟨m₁, ms, rfl, hms, hrun', hshot', hsame, hcounted'⟩ := h.stands.passage seen
    (h.keeps hj hm) hrepeat hrun fun ms hms => ⟨hshot, fun _ _ => rfl, hcounted.quiet
      (fun x hx => Nat.ne_of_lt (hms x hx).2)
      (stored?_eq_none_of_addsOnly h.stands.encode h.stands.addsOnly h.stands.extends_open
        (Nat.le_refl _) (Nat.le_refl _) hms)⟩
  have hnext : j * c.reps.toNat + c.repsSweep.count.toNat = (j + 1) * c.reps.toNat :=
    (Nat.succ_mul ..).symm
  rw [hnext] at hshot' hcounted'
  refine ⟨ms, hms, hrun', fun r hr => ?_, ?_, hcounted'⟩
  · rw [h.get_load r (List.mem_cons_of_mem _ hr), hsame r hr]
  · rw [h.get_load _ (List.mem_cons_self ..), hshot']

/-- **One more lap of the outer sweep is one more sweep point.** -/
theorem keeps_outer (h : c.Shooting q ws code outer p p') {s : Sweep} {first : Program}
    (hexpts : c.expts = some s)
    (hs : s.Stands q ws first outer (c.repsSweep.closed (c.publish p'))) :
    s.Keeps ws outer (c.repsSweep.closed (c.publish p')) (c.repeatShots code) fun j x seen =>
      x.get c.shotRegister = .ofNat (j * c.reps.toNat) ∧
        c.Counted ws p.size (j * c.reps.toNat) seen := by
  intro j x x' seen hj hrepeat hrun ⟨hshot, hcounted⟩
  have hnot : c.shotRegister ∉ s.owned := fun hmem =>
    h.shot_ne c.shotRegister (by rw [exptOwned, hexpts]; exact List.mem_cons_of_mem _ hmem) rfl
  obtain ⟨ms, hms, hrun', hsame, hshot', hcounted'⟩ := h.passage_repeatShots (j := j)
    (by rwa [exptCount, hexpts]) hrepeat (by simpa using hrun)
    (by rw [swept, hexpts]; exact Sweep.get_load hs.valid hs.nodup)
    (by rw [Sweep.get_load_of_not_mem hs.valid h.valid_shot hnot, hshot]) hcounted
  rw [exptOwned, hexpts] at hsame
  refine ⟨ms, hms, hrun', hsame, fun ms' hms' => ⟨hshot', ?_⟩⟩
  rw [← List.append_assoc]
  refine hcounted'.quiet (fun x hx => ?_) (stored?_eq_none_of_addsOnly hs.encode
    (s.addsOnly_closed _) hs.closed (Nat.le_refl _) (Nat.le_refl _) hms')
  have hbody := h.stands.body.size_le
  have hclosed := c.repsSweep.size_lt_size_closed (c.publish p')
  have := hms' x hx
  omega

end Shooting

end AveragerConfig
end PulseProcessor
