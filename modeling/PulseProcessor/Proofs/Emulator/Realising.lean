import PulseProcessor.Proofs.Emulator.Code
import PulseProcessor.Proofs.Emulator.Constants

/-! # Code as a function on machines

Straight-line code that cannot fail is a function on machines.  `Program.Realises kept p p' f` says
that what has been added to `p` to reach `p'` is such code, that it takes every running machine `m`
to `f m`, and that it writes none of the registers in `kept`.  Pieces of code are put together with
`Program.Realises.trans`; where they stand makes no difference.
-/

namespace PulseProcessor
namespace Program

open Isa (Operator)

variable {p p' p'' q : Program} {ws : List Word} {code code' : List Instruction}
  {kept : List Register} {f f' : Machine → Machine} {i : Instruction} {comment : Option String}
  {m m' : Machine} {pc : Nat} {r : Register} {v : Int}

namespace Emits

theorem refl (p : Program) : p.Emits [] p := ⟨.refl p, (List.append_nil _).symm⟩

theorem of_append (p : Program) (i : Instruction) (comment : Option String) :
    p.Emits [i] (p.append i comment) :=
  ⟨extends_append .., by simp [Program.instructions, append]⟩

theorem trans (h : p.Emits code p') (h' : p'.Emits code' p'') : p.Emits (code ++ code') p'' :=
  ⟨h.toExtends.trans h'.toExtends, by rw [h'.instructions, h.instructions, List.append_assoc]⟩

end Emits

/-- **A step from one place to the next is the performance of the instruction there.** -/
theorem At.perform_eq_some (hq : q.encode = .ok ws) (h : q.At pc i) (hi : i.Straight)
    (hnext : (m.goto pc).next? ws.toArray = some (m'.goto (pc + 1))) (hpc : m'.pc = m.pc) :
    m.perform i = some m' := by
  obtain ⟨w, hword, hw⟩ := h.exists_word hq
  obtain ⟨-, word, d, e, hword', hd, he, heq⟩ := Machine.exists_of_next? hnext
  obtain rfl : w = word := by simpa [hword] using hword'
  obtain rfl : ⟨i.mnemonic, w⟩ = d := by simpa [decode?_encodeInstruction hw] using hd
  have hback : (m.goto pc).goto m.pc = m := rfl
  have he' := (Machine.effect_spec he).2 m.pc
  rw [hback] at he'
  rw [(hi.apply_goto (Machine.effect_spec he').1 pc).1] at heq
  rw [hi.perform_eq_some hw he', ← hpc]
  exact congrArg some (congrArg (·.goto m'.pc) heq).symm

/-- **What has been added takes every running machine `m` to `f m`.**  The code lets control through
to its end, and spares the registers in `kept`. -/
def Realises (kept : List Register) (p p' : Program) (f : Machine → Machine) : Prop :=
  ∃ code, p.Emits code p' ∧ (∀ i ∈ code, i.Spares kept) ∧
    ∀ m : Machine, m.halted = false → m.performAll code = some (f m) ∧ (f m).halted = false

namespace Realises

theorem refl (kept : List Register) (p : Program) : Realises kept p p id :=
  ⟨[], .refl p, by simp, fun _ hrun => ⟨rfl, hrun⟩⟩

theorem trans (h : Realises kept p p' f) (h' : Realises kept p' p'' f') :
    Realises kept p p'' (f' ∘ f) := by
  obtain ⟨code, hemits, hspares, hf⟩ := h
  obtain ⟨code', hemits', hspares', hf'⟩ := h'
  refine ⟨code ++ code', hemits.trans hemits', fun i hi => ?_, fun m hrun => ?_⟩
  · exact (List.mem_append.1 hi).elim (hspares i) (hspares' i)
  · obtain ⟨hperform, hrun₁⟩ := hf m hrun
    obtain ⟨hperform', hrun'⟩ := hf' (f m) hrun₁
    refine ⟨?_, hrun'⟩
    rw [Machine.performAll, List.foldlM_append]
    exact Option.bind_eq_some_iff.2 ⟨f m, hperform, hperform'⟩

theorem congr (h : Realises kept p p' f) (hf : ∀ m : Machine, m.halted = false → f m = f' m) :
    Realises kept p p' f' := by
  obtain ⟨code, hemits, hspares, hcode⟩ := h
  refine ⟨code, hemits, hspares, fun m hrun => ?_⟩
  rw [← hf m hrun]
  exact hcode m hrun

/-- One instruction. -/
theorem of_append (kept : List Register) (hq : q.encode = .ok ws)
    (hext : (p.append i comment).Extends q) (hi : i.Spares kept) (hpc : ∀ m, (f m).pc = m.pc)
    (hnext : ∀ m : Machine, m.halted = false →
      (m.goto p.size).next? ws.toArray = some ((f m).goto (p.size + 1))) :
    Realises kept p (p.append i comment) f := by
  have hat := (at_append p i comment).extends hext
  obtain ⟨w, -, hw⟩ := hat.exists_word hq
  refine ⟨[i], .of_append .., by simpa using hi, fun m hrun => ?_⟩
  have hperform := hat.perform_eq_some hq hi.straight (hnext m hrun) (hpc m)
  exact ⟨by simpa [Machine.performAll] using hperform,
    (hi.straight.perform_halted hw hperform).trans hrun⟩

/-- One instruction that writes a register. -/
theorem of_append_put (hq : q.encode = .ok ws) (hext : (p.append i comment).Extends q)
    (hkept : r ∉ kept) (hi : i.Straight) (hdest : i.destination? = some r)
    {g : Machine → UInt32}
    (hnext : ∀ m : Machine, m.halted = false →
      (m.goto p.size).next? ws.toArray = some ((m.put r (g m)).goto (p.size + 1))) :
    Realises kept p (p.append i comment) fun m => m.put r (g m) :=
  of_append kept hq hext
    ⟨hi, fun r' hr' => by rwa [← Option.some.inj (hdest.symm.trans hr')]⟩
    (fun _ => Machine.write_pc) hnext

/-- One instruction that records an update. -/
theorem of_append_emit (kept : List Register) (hq : q.encode = .ok ws)
    (hext : (p.append i comment).Extends q) (hi : i.Spares kept) {event : Machine → Event}
    (hnext : ∀ m : Machine, m.halted = false →
      (m.goto p.size).next? ws.toArray = some ((m.emit (event m)).goto (p.size + 1))) :
    Realises kept p (p.append i comment) fun m => m.emit (event m) :=
  of_append kept hq hext hi (fun _ => rfl) hnext

/-- **Loading a constant.** -/
theorem of_loadConstant (hq : q.encode = .ok ws) (hr : r.Valid) (hkept : r ∉ kept)
    (h : (p.loadConstant r.page r.number v comment).Extends q) :
    Realises kept p (p.loadConstant r.page r.number v comment) (·.put r (.ofInt v)) := by
  unfold loadConstant at h ⊢
  by_cases hsmall : v.natAbs < 1 <<< 30
  · rw [if_pos hsmall] at h ⊢
    have hnarrow : Isa.Narrow v := ⟨by omega, by omega⟩
    refine of_append_put hq h hkept ⟨rfl, nofun⟩ rfl fun m hrun => ?_
    rw [((at_append ..).extends h).next?_regwi hq hrun, hnarrow.bmod]
  rw [if_neg hsmall] at h ⊢
  dsimp only at h ⊢
  generalize hshifted : (p.append (.regwi r.page r.number (v / 4)) comment).append
    (.bitwi r.page r.number r.number (.known .shl) 2) = shifted at h ⊢
  -- The upper bits are put in their place.
  have hupper (hext : shifted.Extends q) : Realises kept p shifted
      (·.put r (UInt32.ofInt ((v / 4).bmod (1 <<< 31)) <<< 2)) := by
    subst hshifted
    have hfirst := (extends_append ..).trans hext
    have hload := of_append_put hq hfirst hkept ⟨rfl, nofun⟩ rfl
      fun m hrun => ((at_append ..).extends hfirst).next?_regwi hq hrun
    have hshift := of_append_put hq hext hkept ⟨rfl, nofun⟩ rfl
      (g := fun m => m.get r <<< 2)
      fun m hrun => ((at_append ..).extends hext).next?_bitwi hq hrun rfl
    refine (hload.trans hshift).congr fun m _ => ?_
    rw [Function.comp_apply, Machine.get_put_self hr, Machine.put_put_self]
  have hvalue := ofInt_quarter v
  by_cases hlow : v % 4 = 0
  · rw [if_pos hlow] at h ⊢
    rw [hlow, show UInt32.ofInt 0 = 0 from rfl, UInt32.add_zero] at hvalue
    exact (hupper h).congr fun m _ => by rw [hvalue]
  · rw [if_neg hlow] at h ⊢
    have hnarrow : Isa.Narrow (v % 4) := ⟨by omega, by omega⟩
    have hadd := of_append_put hq h hkept ⟨rfl, nofun⟩ rfl
      (g := fun m => m.get r + .ofInt (v % 4)) fun m hrun => by
        rw [((at_append ..).extends h).next?_mathi hq hrun, hnarrow.bmod]
    refine ((hupper ((extends_append ..).trans h)).trans hadd).congr fun m _ => ?_
    rw [Function.comp_apply, Machine.get_put_self hr, Machine.put_put_self, hvalue]

end Realises
end Program
end PulseProcessor
