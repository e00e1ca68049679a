import Nmos6502.Proofs.Faults

/-!
# A run is stepping by hand

A run is a loop that steps until its budget is spent. Someone who steps the machine by hand and adds
up the cycles can tell where the loop stops: at the first step that brings the sum to what is left
of the budget after the carry, or at the first step that fails. This module says so, with the
machine, the result and the carry that the run leaves in each case.

## The last step

`Cpu.Steps` is stepping by hand, as a relation between two machines and the steps reported between
them. A run has a *last step*: the sum before it is below the target, and the step either fails or
reaches the target. Sums only grow, so no earlier one reached the target either. That there is a
last step is `Cpu.exists_last_step`. What the run does up to it is `Cpu.Steps.runTo`, by induction
on the steps, and the two ways in which it ends are those of the loop.

A step takes between two and seven cycles, so the sum goes over its target by six at most.

## Main definitions

* `Step.total` — the cycles of some steps
* `Cpu.Steps` — stepping by hand

## Main results

* `Cpu.cycles_step_bounds` — what a step costs
* `Cpu.Steps.runTo`, `Cpu.exists_last_step` — a loop up to its last step
* `Cpu.run_of_reached`, `Cpu.run_of_failed` — the two ways in which it ends
* `Cpu.run_eq_stepping` — a run, by its steps
-/

universe u

namespace Nmos6502

/-- The cycles of some steps. -/
def Step.total (ss : List Step) : Nat := (ss.map Step.cycles).sum

@[simp] theorem Step.total_nil : Step.total [] = 0 := rfl

@[simp] theorem Step.total_cons (s : Step) (ss : List Step) :
    Step.total (s :: ss) = s.cycles + Step.total ss := rfl

/-- Every branch takes two cycles before it is taken. -/
theorem Opcode.cycles_of_relative {o : Opcode} (h : o ∈ documented)
    (hm : o.mode = .relative) : o.cycles = 2 := by
  have all : ∀ o ∈ documented, o.mode = .relative → o.cycles = 2 := by decide +kernel
  exact all o h hm

namespace Cpu

variable {β : Type u} [Bus β]

/-! ## What a step costs -/

/-- No instruction takes more than seven cycles. A branch takes two before it is taken, and four at
most. -/
theorem cost_le_seven (c : Cpu β) {o : Opcode} (h : o ∈ Opcode.documented) : c.cost o ≤ 7 := by
  have base : ∀ o ∈ Opcode.documented, o.cycles ≤ 7 := by decide +kernel
  rw [cost]
  dsimp only
  split
  · rename_i b hb
    have hmode : o.mode = .relative := by
      rw [← Opcode.mode_operation h, Opcode.operation_of_branch h hb]
      rfl
    have htwo : o.cycles = 2 := Opcode.cycles_of_relative h hmode
    split
    · split <;> omega
    · omega
  · exact base o h

/-- **What a step costs.** Between two and seven cycles. -/
theorem cycles_step_bounds {c : Cpu β} {s : Step} (h : c.step.1 = .ok s) :
    2 ≤ s.cycles ∧ s.cycles ≤ 7 := by
  revert h
  refine c.step_cases (fun i rest _ => ?_) (fun o _ ho => ?_) (fun _ _ _ => ?_) (fun _ _ _ => ?_)
  · rintro ⟨⟩
    exact ⟨(by decide : 2 ≤ serviceCycles), (by decide : serviceCycles ≤ 7)⟩
  · rintro ⟨⟩
    have hlow : o.cycles ≤ c.cost o := c.le_cost o
    have htwo : 2 ≤ o.cycles := Opcode.two_le_cycles ho
    rw [cycles_report]
    exact ⟨Nat.le_trans htwo hlow, c.cost_le_seven (documented_of_opcode ho)⟩
  · nofun
  · rintro ⟨⟩
    exact ⟨(by decide : 2 ≤ skipCycles), (by decide : skipCycles ≤ 7)⟩

/-! ## Stepping by hand -/

/-- Stepping by hand: from one machine to another by steps that succeed, with what they report. -/
inductive Steps : Cpu β → List Step → Cpu β → Prop
  | nil (c : Cpu β) : Steps c [] c
  | cons {c c' d : Cpu β} {s : Step} {ss : List Step} (first : c.step = (.ok s, c'))
    (rest : Steps c' ss d) : Steps c (s :: ss) d

/-- As long as the sum stays below the target, the loop does what stepping by hand does. -/
theorem Steps.runTo {c d : Cpu β} {ss : List Step} (h : c.Steps ss d) {target consumed : Nat}
    (hlt : consumed + Step.total ss < target) :
    Cpu.runTo target consumed c = Cpu.runTo target (consumed + Step.total ss) d := by
  induction h generalizing consumed with
  | nil c => rfl
  | @cons c c' d s ss first rest ih =>
    rw [Step.total_cons] at hlt ⊢
    have hbelow : consumed < target := by omega
    rw [runTo_of_step hbelow first, ih (by omega), Nat.add_assoc]

/-- **There is a last step.** Stepping by hand comes to a machine whose next step fails or reaches
the target. -/
theorem exists_last_step (c : Cpu β) {target consumed : Nat} (h : consumed < target) :
    ∃ ss d, c.Steps ss d ∧ consumed + Step.total ss < target ∧
      ∀ s, d.step.1 = .ok s → target ≤ consumed + Step.total ss + s.cycles := by
  revert h
  refine runTo_induction target (fun k c hk h => ?_) (fun k c c' f hk hs h => ?_)
    (fun k c c' s hk hs ih h => ?_) consumed c
  · exact absurd h (Nat.not_lt.mpr hk)
  · refine ⟨[], c, .nil c, h, fun s hok => ?_⟩
    rw [hs] at hok
    cases hok
  · by_cases hreach : k + s.cycles < target
    · obtain ⟨ss, d, hsteps, hlt, hlast⟩ := ih hreach
      refine ⟨s :: ss, d, .cons hs hsteps, ?_, fun s' hs' => ?_⟩
      · rw [Step.total_cons]
        omega
      · have hnext := hlast s' hs'
        rw [Step.total_cons]
        omega
    · refine ⟨[], c, .nil c, h, fun s' hs' => ?_⟩
      obtain rfl : s = s' := by
        rw [hs] at hs'
        exact Except.ok.inj hs'
      rw [Step.total_nil]
      omega

/-! ## Runs -/

section LastStep

variable {c d : Cpu β} {ss : List Step} {budget : Nat}

/-- A run goes on from any machine that stepping by hand comes to below the target. -/
theorem run_of_steps (hc : c.carry < budget) (h : c.Steps ss d)
    (hlt : Step.total ss < budget - c.carry) :
    c.run budget = runTo (budget - c.carry) (Step.total ss) d := by
  have hloop : runTo (budget - c.carry) 0 c = runTo (budget - c.carry) (0 + Step.total ss) d :=
    h.runTo (by omega)
  rw [run_of_lt hc, hloop, Nat.zero_add]

/-- A run whose last step reaches the target. -/
theorem run_of_reached (hc : c.carry < budget) (h : c.Steps ss d)
    (hlt : Step.total ss < budget - c.carry) {s : Step} {e : Cpu β} (hs : d.step = (.ok s, e))
    (hreach : budget - c.carry ≤ Step.total ss + s.cycles) :
    c.run budget = (.ok (Step.total ss + s.cycles),
      { e with carry := Step.total ss + s.cycles - (budget - c.carry) }) := by
  rw [run_of_steps hc h hlt, runTo_of_step hlt hs, runTo_of_le hreach]

/-- A run whose last step fails. -/
theorem run_of_failed (hc : c.carry < budget) (h : c.Steps ss d)
    (hlt : Step.total ss < budget - c.carry) {f : Fault} (hf : d.step.1 = .error f) :
    c.run budget = (.error f, { d.afterFault with carry := 0 }) := by
  have hs : d.step = (.error f, d.afterFault) := Prod.ext hf (step_of_error hf)
  rw [run_of_steps hc h hlt, runTo_of_fault hlt hs]

end LastStep

/-- **A run, by its steps.** A carry that covers the budget is used up by it, and nothing else
happens. Otherwise there is a last step, and whoever steps by hand up to it knows the run. If the
last step reaches the target, the run has executed the sum up to and including it and leaves the
machine after it, with the excess as the carry. If it fails, the run fails with its fault, and
leaves the machine before it with the illegal byte counted and no carry. A sum never goes over the
target by more than six. -/
theorem run_eq_stepping (c : Cpu β) (budget : Nat) :
    (budget ≤ c.carry → c.run budget = (.ok 0, { c with carry := c.carry - budget })) ∧
    (c.carry < budget →
      (∃ ss d, c.Steps ss d ∧ Step.total ss < budget - c.carry ∧
        ∀ s, d.step.1 = .ok s → budget - c.carry ≤ Step.total ss + s.cycles) ∧
      ∀ ss d, c.Steps ss d → Step.total ss < budget - c.carry →
        (∀ s e, d.step = (.ok s, e) → budget - c.carry ≤ Step.total ss + s.cycles →
          c.run budget = (.ok (Step.total ss + s.cycles),
            { e with carry := Step.total ss + s.cycles - (budget - c.carry) }) ∧
          Step.total ss + s.cycles ≤ budget - c.carry + 6) ∧
        (∀ f, d.step.1 = .error f →
          c.run budget = (.error f, { d with
            carry := 0
            decodeErrors := d.decodeErrors + 1
            journal := d.journal.record
              (.illegalOpcode (Bus.read d.bus d.regs.pc) d.regs.pc) }))) := by
  refine ⟨run_of_le, fun hc => ⟨?_, fun ss d hsteps hlt => ⟨fun s e hs hreach => ⟨?_, ?_⟩, ?_⟩⟩⟩
  · have hpos : 0 < budget - c.carry := Nat.sub_pos_of_lt hc
    simpa only [Nat.zero_add] using c.exists_last_step hpos
  · exact run_of_reached hc hsteps hlt hs hreach
  · have hcost := (cycles_step_bounds (c := d) (by rw [hs])).2
    omega
  · exact fun f hf => run_of_failed hc hsteps hlt hf

end Cpu

end Nmos6502
