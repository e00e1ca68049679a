import Mathlib.Algebra.GroupWithZero.Nat
import Nmos6502.Proofs.Frame

/-!
# Budgets

A run ends where its cycles first reach the budget, and what it goes over by is carried. This module
shows that the carry is exactly right: two runs, one after the other, execute what a single run for
both budgets executes, wherever the split falls. It may fall inside an instruction, so that the
first run executes cycles of the second budget; it may fall where the carry covers a whole budget,
so that nothing is executed at all; and the fault may come before the split or after it.

## How the split is proved

A run is a loop with a target and a count of what is consumed, and `Cpu.runTo_induction` is the one
induction on it. Three facts about the loop follow from it.

* The carry that a machine brings is not looked at: `Cpu.runTo_withCarry`.
* Only the distance to the target matters: `Cpu.runTo_shift`.
* A loop with a further target is the loop, and then a run for the rest: `Cpu.runTo_add`. This is
  where the overshoot of the first loop meets the second budget.

A run then splits because its loop does, and a list of runs splits because one run does. Budgets are
natural numbers, so no sum of them is too large.

## Main definitions

* `Cpu.runs` — a list of runs, up to the first fault

## Main results

* `Cpu.run_add` — a run for two budgets
* `Cpu.run_sum` — a run for a list of budgets
-/

universe u

namespace Nmos6502

namespace Cpu

variable {β : Type u} [Bus β]

/-! ## Induction on a run -/

/-- Induction along the steps of a run, from its end: it may have reached the target, or its next
step fails, or its next step brings it nearer to the target. -/
@[elab_as_elim]
theorem runTo_induction {motive : Nat → Cpu β → Prop} (target : Nat)
    (done : ∀ consumed c, target ≤ consumed → motive consumed c)
    (fault : ∀ consumed c c' f, consumed < target → c.step = (.error f, c') → motive consumed c)
    (step : ∀ consumed c c' s, consumed < target → c.step = (.ok s, c') →
      motive (consumed + s.cycles) c' → motive consumed c)
    (consumed : Nat) (c : Cpu β) : motive consumed c := by
  induction hd : target - consumed using Nat.strongRecOn generalizing consumed c with
  | ind d ih =>
    by_cases hlt : consumed < target
    · rcases hs : c.step with ⟨r, c'⟩
      cases r with
      | error f => exact fault consumed c c' f hlt hs
      | ok s =>
        have hpos : 0 < s.cycles := cycles_step_pos (c := c) (by rw [hs])
        exact step consumed c c' s hlt hs (ih _ (by omega) _ _ rfl)
    · exact done consumed c (Nat.not_lt.mp hlt)

/-! ## The loop -/

/-- The loop does not look at the carry that the machine brings. -/
theorem runTo_withCarry (target consumed n : Nat) (c : Cpu β) :
    runTo target consumed { c with carry := n } = runTo target consumed c := by
  refine runTo_induction target (fun k c hk => ?_) (fun k c c' f hk hs => ?_)
    (fun k c c' s hk hs ih => ?_) consumed c
  · rw [runTo_of_le hk, runTo_of_le hk]
  · have hs' : { c with carry := n }.step = (.error f, { c' with carry := n }) := by
      rw [step_withCarry, hs]
    rw [runTo_of_fault hk hs', runTo_of_fault hk hs]
  · have hs' : { c with carry := n }.step = (.ok s, { c' with carry := n }) := by
      rw [step_withCarry, hs]
    rw [runTo_of_step hk hs', runTo_of_step hk hs, ih]

/-- Only the distance to the target matters to the loop. -/
theorem runTo_shift (d target consumed : Nat) (c : Cpu β) :
    runTo (target + d) (consumed + d) c =
      ((runTo target consumed c).1.map (· + d), (runTo target consumed c).2) := by
  refine runTo_induction target (fun k c hk => ?_) (fun k c c' f hk hs => ?_)
    (fun k c c' s hk hs ih => ?_) consumed c
  · rw [runTo_of_le hk, runTo_of_le (Nat.add_le_add_right hk d), Nat.add_sub_add_right]
    rfl
  · rw [runTo_of_fault hk hs, runTo_of_fault (Nat.add_lt_add_right hk d) hs]
    rfl
  · rw [runTo_of_step hk hs, runTo_of_step (Nat.add_lt_add_right hk d) hs, ← ih,
      Nat.add_right_comm]

/-- After a run that succeeded, run for another budget and add the cycles up. -/
def thenRun (r : Except Fault Nat × Cpu β) (budget : Nat) : Except Fault Nat × Cpu β :=
  match r with
  | (.ok n, c) => ((c.run budget).1.map (n + ·), (c.run budget).2)
  | (.error f, c) => (.error f, c)

/-- A loop that is past its target goes on to a further target as a run does that brings the excess
as its carry. -/
theorem runTo_add_of_le {target consumed : Nat} (h : target ≤ consumed) (more : Nat) (c : Cpu β) :
    runTo (target + more) consumed c =
      thenRun (.ok consumed, { c with carry := consumed - target }) more := by
  by_cases hm : more ≤ consumed - target
  · have hrun : run { c with carry := consumed - target } more =
        (.ok 0, { c with carry := consumed - target - more }) := if_pos hm
    rw [runTo_of_le (by omega), thenRun, hrun, Nat.sub_sub]
    rfl
  · have hrun : run { c with carry := consumed - target } more =
        runTo (more - (consumed - target)) 0 c :=
      (if_neg hm).trans (runTo_withCarry _ _ _ c)
    have hshift := runTo_shift consumed (more - (consumed - target)) 0 c
    rw [show more - (consumed - target) + consumed = target + more by omega, Nat.zero_add] at hshift
    rw [hshift, thenRun, hrun]
    exact Prod.ext (congrArg (Except.map · _) (funext fun k => Nat.add_comm k consumed)) rfl

/-- **The loop splits.** A loop with a further target is the loop, and then a run for the rest. -/
theorem runTo_add (target more consumed : Nat) (c : Cpu β) :
    runTo (target + more) consumed c = thenRun (runTo target consumed c) more := by
  refine runTo_induction target (fun k c hk => ?_) (fun k c c' f hk hs => ?_)
    (fun k c c' s hk hs ih => ?_) consumed c
  · rw [runTo_add_of_le hk, runTo_of_le hk]
  · rw [runTo_of_fault hk hs, runTo_of_fault (Nat.lt_add_right more hk) hs]
    rfl
  · rw [runTo_of_step hk hs, runTo_of_step (Nat.lt_add_right more hk) hs, ih]

/-! ## Runs -/

theorem run_of_le {c : Cpu β} {budget : Nat} (h : budget ≤ c.carry) :
    c.run budget = (.ok 0, { c with carry := c.carry - budget }) := if_pos h

theorem run_of_lt {c : Cpu β} {budget : Nat} (h : c.carry < budget) :
    c.run budget = runTo (budget - c.carry) 0 c := if_neg (Nat.not_le.mpr h)

/-- After a run that executed nothing, the next one is all there is. -/
theorem thenRun_zero (c : Cpu β) (budget : Nat) : thenRun (.ok 0, c) budget = c.run budget := by
  refine Prod.ext ?_ rfl
  show (c.run budget).1.map (0 + ·) = (c.run budget).1
  cases (c.run budget).1 with
  | ok n => exact congrArg Except.ok (Nat.zero_add n)
  | error f => rfl

/-- What a carry covers of a budget can come off it in a run of its own. -/
theorem run_add_of_le {c : Cpu β} {first : Nat} (h : first ≤ c.carry) (second : Nat) :
    c.run (first + second) = run { c with carry := c.carry - first } second := by
  by_cases hs : second ≤ c.carry - first
  · rw [run_of_le (by omega), run_of_le hs, Nat.sub_sub]
  · have hlt : c.carry - first < second := Nat.not_le.mp hs
    have hrun : run { c with carry := c.carry - first } second =
        runTo (second - (c.carry - first)) 0 c := (run_of_lt hlt).trans (runTo_withCarry _ _ _ c)
    rw [run_of_lt (by omega), hrun,
      show first + second - c.carry = second - (c.carry - first) by omega]

/-- **A run splits.** A run for two budgets is the run for the first, and then the run for the
second. -/
theorem run_add (c : Cpu β) (first second : Nat) :
    c.run (first + second) = thenRun (c.run first) second := by
  by_cases h : first ≤ c.carry
  · rw [run_add_of_le h, run_of_le h, thenRun_zero]
  · have hlt : c.carry < first := Nat.not_le.mp h
    rw [run_of_lt hlt, run_of_lt (Nat.lt_add_right second hlt),
      Nat.sub_add_comm (Nat.le_of_lt hlt), runTo_add]

/-- Run for each budget in turn, up to the first fault. Gives the cycles that each run executed. -/
def runs (c : Cpu β) : (budgets : List Nat) → Except Fault (List Nat) × Cpu β
  | [] => (.ok [], c)
  | budget :: rest =>
    match c.run budget with
    | (.ok n, c) => ((c.runs rest).1.map (n :: ·), (c.runs rest).2)
    | (.error f, c) => (.error f, c)

/-- **A run for a list of budgets.** However a budget is cut up, the runs for its parts leave the
machine that the run for the whole leaves, down to the carry and the counters. They succeed
together, and then the cycles of the parts add up to the cycles of the whole; and if they fail, then
with the same fault. -/
theorem run_sum (c : Cpu β) (budgets : List Nat) :
    c.run budgets.sum = ((c.runs budgets).1.map List.sum, (c.runs budgets).2) := by
  induction budgets generalizing c with
  | nil => exact run_of_le (Nat.zero_le _)
  | cons budget rest ih =>
    rw [List.sum_cons, run_add, runs]
    rcases c.run budget with ⟨r, c'⟩
    cases r with
    | error f => rfl
    | ok n =>
      simp only [thenRun]
      rw [ih c']
      cases (c'.runs rest).1 with
      | ok counts => rfl
      | error f => rfl

end Cpu

end Nmos6502
