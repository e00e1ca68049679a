import Nmos6502.Proofs.Costs

/-!
# A run in 64 bits

Budgets and sums are natural numbers here, so a run can be asked for any budget. A host that keeps
them in words of 64 bits asks for less than `2 ^ 64` cycles, and adds up in words what the steps
report. This module follows such a host: `Cpu.run64` is the run with its sums in words, which counts
how often it calls for a step.

Where a sum does not fit, `Cpu.run64` has no outcome. That marks the overflow, and does not say what
a host does there. One whose words wrap goes on with the sum modulo `2 ^ 64`, and so may never reach
its target; one that checks its words does not get as far as the sum, since its counter of cycles
has grown by as much, and overflows in the same step at the latest.

## What the words change

The sum before the last step is below the target, and the target is a word. So every sum but the
last fits, and the last one is the result: the run in words is the run, unless the result is no
word. Then it has none. The last step may go over the target by six, so that can happen for the six
largest budgets and for no other. A step takes two cycles at least, so half as many calls as there
are cycles to spend are enough, rounded up; and the excess is what the sum has over the target,
which it has reached by then.

## The run that does not fit

It takes `2 ^ 63` steps, so it is not evaluated. In a memory where every byte is NOP, every step
takes two cycles. For the largest budget of all the cycles come to `2 ^ 64`, one more than the
budget and one more than a word holds.

## Main definitions

* `Cpu.runTo64`, `Cpu.run64` — the loop and the run in words, and the steps they call for
* `Cpu.inWords` — a result in words, if it fits
* `Cpu.Sliding` — the machines that execute NOP, over and over

## Main results

* `Cpu.run64_eq_inWords` — the run in words is the run, where its result fits
* `Cpu.calls_run64_le` — how many steps a run calls for
* `Cpu.run_within_words` — both, with the excess and the budgets for which nothing can go wrong
* `Cpu.run_leaves_words` — a run of which the result does not fit
-/

universe u

namespace Nmos6502

namespace Cpu

variable {β : Type u} [Bus β]

/-! ## The run in words -/

theorem toNat_add_of_lt {n : UInt64} {k : Nat} (h : n.toNat + k < 2 ^ 64) :
    (n + UInt64.ofNat k).toNat = n.toNat + k := by
  rw [UInt64.toNat_add, UInt64.toNat_ofNat']
  omega

/-- Step until the cycles consumed reach the target, with the sum in a word: how many steps are
called for, and the outcome. There is none if a sum does not fit. -/
def runTo64 (target consumed : UInt64) (c : Cpu β) :
    Nat × Option (Except Fault UInt64 × Cpu β) :=
  if hlt : consumed < target then
    match h : c.step with
    | (.ok s, c') =>
      if hfit : consumed.toNat + s.cycles < 2 ^ 64 then
        have : 0 < s.cycles := cycles_step_pos (by rw [h])
        let rest := runTo64 target (consumed + UInt64.ofNat s.cycles) c'
        (rest.1 + 1, rest.2)
      else (1, none)
    | (.error f, c') => (1, some (.error f, { c' with carry := 0 }))
  else (0, some (.ok consumed, { c with carry := (consumed - target).toNat }))
  termination_by target.toNat - consumed.toNat
  decreasing_by
    have hbelow := UInt64.lt_iff_toNat_lt.mp hlt
    rw [toNat_add_of_lt hfit]
    omega

/-- Run for a budget of cycles that is a word. -/
def run64 (c : Cpu β) (budget : UInt64) : Nat × Option (Except Fault UInt64 × Cpu β) :=
  if budget.toNat ≤ c.carry then
    (0, some (.ok 0, { c with carry := c.carry - budget.toNat }))
  else runTo64 (UInt64.ofNat (budget.toNat - c.carry)) 0 c

/-- The outcome of a run in words. A result that is no word is none. -/
def inWords (r : Except Fault Nat × Cpu β) : Option (Except Fault UInt64 × Cpu β) :=
  match r with
  | (.ok n, c) => if n < 2 ^ 64 then some (.ok (UInt64.ofNat n), c) else none
  | (.error f, c) => some (.error f, c)

omit [Bus β] in
theorem inWords_eq_none_iff {r : Except Fault Nat × Cpu β} :
    inWords r = none ↔ ∃ n, r.1 = .ok n ∧ 2 ^ 64 ≤ n := by
  obtain ⟨result, c⟩ := r
  cases result with
  | error f => simp [inWords]
  | ok n => simp [inWords]

omit [Bus β] in
/-- An outcome in words is the same result and the same machine. -/
theorem inWords_eq_some_iff {r : Except Fault Nat × Cpu β} {result : Except Fault UInt64}
    {d : Cpu β} : inWords r = some (result, d) ↔ result.map UInt64.toNat = r.1 ∧ d = r.2 := by
  obtain ⟨number, c⟩ := r
  cases number with
  | error f => cases result <;> simp [inWords, Except.map, eq_comm]
  | ok n =>
    cases result with
    | error f => simp [inWords, Except.map]
    | ok w =>
      have hword : n < 2 ^ 64 ∧ UInt64.ofNat n = w ↔ w.toNat = n := by
        constructor
        · rintro ⟨hlt, rfl⟩
          exact UInt64.toNat_ofNat_of_lt' hlt
        · rintro rfl
          exact ⟨w.toNat_lt, UInt64.ofNat_toNat⟩
      simp only [inWords, Except.map, Option.ite_none_right_eq_some, Option.some.injEq,
        Prod.mk.injEq, Except.ok.injEq, ← and_assoc, hword, eq_comm (a := c)]

section Loop

variable {c c' : Cpu β} {target consumed : UInt64}

theorem runTo64_of_le (h : target ≤ consumed) :
    runTo64 target consumed c =
      (0, some (.ok consumed, { c with carry := (consumed - target).toNat })) := by
  rw [runTo64, dif_neg (UInt64.not_lt.mpr h)]

theorem runTo64_of_fault {f : Fault} (h : consumed < target) (hs : c.step = (.error f, c')) :
    runTo64 target consumed c = (1, some (.error f, { c' with carry := 0 })) := by
  rw [runTo64, dif_pos h]
  split <;> simp_all

theorem runTo64_of_fits {s : Step} (h : consumed < target) (hs : c.step = (.ok s, c'))
    (hfit : consumed.toNat + s.cycles < 2 ^ 64) :
    runTo64 target consumed c =
      ((runTo64 target (consumed + UInt64.ofNat s.cycles) c').1 + 1,
        (runTo64 target (consumed + UInt64.ofNat s.cycles) c').2) := by
  rw [runTo64, dif_pos h]
  split <;> simp_all

theorem runTo64_of_not_fits {s : Step} (h : consumed < target) (hs : c.step = (.ok s, c'))
    (hfit : 2 ^ 64 ≤ consumed.toNat + s.cycles) : runTo64 target consumed c = (1, none) := by
  rw [runTo64, dif_pos h]
  split
  · rename_i s' d hs'
    obtain ⟨⟨⟩, ⟨⟩⟩ := Prod.mk.inj (hs.symm.trans hs')
    exact dif_neg (Nat.not_lt.mpr hfit)
  · simp_all

variable {budget : UInt64}

theorem run64_of_le (h : budget.toNat ≤ c.carry) :
    c.run64 budget = (0, some (.ok 0, { c with carry := c.carry - budget.toNat })) :=
  if_pos h

/-- What is left of a budget after the carry is a word, and the target of the loop. -/
theorem run64_of_lt (h : c.carry < budget.toNat) :
    ∃ target : UInt64, target.toNat = budget.toNat - c.carry ∧
      c.run64 budget = runTo64 target 0 c := by
  have hbudget := budget.toNat_lt
  refine ⟨UInt64.ofNat (budget.toNat - c.carry), ?_, if_neg (Nat.not_le.mpr h)⟩
  exact UInt64.toNat_ofNat_of_lt' (by show _ < 2 ^ 64; omega)

end Loop

/-! ## It is the run, where its result fits -/

theorem runTo64_eq_inWords (target : UInt64) (consumed : Nat) (c : Cpu β) :
    ∀ word : UInt64, word.toNat = consumed →
      (runTo64 target word c).2 = inWords (runTo target.toNat consumed c) := by
  refine runTo_induction target.toNat ?_ ?_ ?_ consumed c
  · rintro _ c hk word rfl
    have hle : target ≤ word := UInt64.le_iff_toNat_le.mpr hk
    rw [runTo64_of_le hle, runTo_of_le hk, UInt64.toNat_sub_of_le _ _ hle]
    simp only [inWords, if_pos word.toNat_lt, UInt64.ofNat_toNat]
  · rintro _ c c' f hk hs word rfl
    rw [runTo64_of_fault (UInt64.lt_iff_toNat_lt.mpr hk) hs, runTo_of_fault hk hs]
    rfl
  · rintro _ c c' s hk hs ih word rfl
    have hlt : word < target := UInt64.lt_iff_toNat_lt.mpr hk
    rw [runTo_of_step hk hs]
    by_cases hfit : word.toNat + s.cycles < 2 ^ 64
    · rw [runTo64_of_fits hlt hs hfit]
      exact ih _ (toNat_add_of_lt hfit)
    · -- the sum has left the words, and so it has passed the target
      have htarget := target.toNat_lt
      rw [runTo64_of_not_fits hlt hs (Nat.not_lt.mp hfit), runTo_of_le (by omega)]
      exact (if_neg hfit).symm

/-- **The run in words is the run**, where its result fits, and otherwise it has no outcome. -/
theorem run64_eq_inWords (c : Cpu β) (budget : UInt64) :
    (c.run64 budget).2 = inWords (c.run budget.toNat) := by
  by_cases h : budget.toNat ≤ c.carry
  · rw [run64_of_le h, run_of_le h]
    rfl
  · obtain ⟨target, htarget, hrun⟩ := run64_of_lt (Nat.not_le.mp h)
    rw [hrun, run_of_lt (Nat.not_le.mp h), runTo64_eq_inWords target 0 c 0 rfl, htarget]

/-! ## How many steps it calls for -/

theorem calls_runTo64_le (target : UInt64) (consumed : Nat) (c : Cpu β) :
    ∀ word : UInt64, word.toNat = consumed →
      2 * (runTo64 target word c).1 ≤ target.toNat - consumed + 1 := by
  refine runTo_induction target.toNat ?_ ?_ ?_ consumed c
  · rintro _ c hk word rfl
    rw [runTo64_of_le (UInt64.le_iff_toNat_le.mpr hk)]
    exact Nat.zero_le _
  · rintro _ c c' f hk hs word rfl
    rw [runTo64_of_fault (UInt64.lt_iff_toNat_lt.mpr hk) hs]
    omega
  · rintro _ c c' s hk hs ih word rfl
    have hlt : word < target := UInt64.lt_iff_toNat_lt.mpr hk
    have hcost : 2 ≤ s.cycles := (cycles_step_bounds (c := c) (by rw [hs])).1
    by_cases hfit : word.toNat + s.cycles < 2 ^ 64
    · have hrest := ih _ (toNat_add_of_lt hfit)
      rw [runTo64_of_fits hlt hs hfit]
      omega
    · rw [runTo64_of_not_fits hlt hs (Nat.not_lt.mp hfit)]
      omega

/-- **How many steps a run calls for.** One for every two cycles that are left of the budget after
the carry, rounded up, and none if nothing is left. -/
theorem calls_run64_le (c : Cpu β) (budget : UInt64) :
    (c.run64 budget).1 ≤ (budget.toNat - c.carry + 1) / 2 := by
  by_cases h : budget.toNat ≤ c.carry
  · rw [run64_of_le h]
    exact Nat.zero_le _
  · obtain ⟨target, htarget, hrun⟩ := run64_of_lt (Nat.not_le.mp h)
    have hcalls := calls_runTo64_le target 0 c 0 rfl
    rw [htarget] at hcalls
    rw [hrun]
    omega

/-- **A run within words.** For every machine and every budget that is a word, the run in words
calls for at most one step for every two cycles that are left of the budget after the carry, and for
none if the carry covers it. Its outcome is that of the run, unless the result of the run is no
word: then it has none. Where the run succeeds its result has reached what was left of the budget,
so the excess can be taken, and is six at most. So it has an outcome for every budget up to
`2 ^ 64 - 7`, the carry added, and that is the outcome of the run. -/
theorem run_within_words (c : Cpu β) (budget : UInt64) :
    (c.run64 budget).1 ≤ (budget.toNat - c.carry + 1) / 2 ∧
    ((c.run64 budget).2 = none ↔
      ∃ n, (c.run budget.toNat).1 = .ok n ∧ 2 ^ 64 ≤ n) ∧
    (∀ r d, (c.run64 budget).2 = some (r, d) ↔
      r.map UInt64.toNat = (c.run budget.toNat).1 ∧ d = (c.run budget.toNat).2) ∧
    (∀ n, (c.run budget.toNat).1 = .ok n →
      budget.toNat - c.carry ≤ n ∧ n ≤ budget.toNat - c.carry + 6) ∧
    (budget.toNat ≤ c.carry + (2 ^ 64 - 7) → (c.run64 budget).2 ≠ none) := by
  have hnone : (c.run64 budget).2 = none ↔
      ∃ n, (c.run budget.toNat).1 = .ok n ∧ 2 ^ 64 ≤ n := by
    rw [run64_eq_inWords]
    exact inWords_eq_none_iff
  refine ⟨c.calls_run64_le budget, hnone, ?_, ?_, ?_⟩
  · intro r d
    rw [run64_eq_inWords]
    exact inWords_eq_some_iff
  · intro n hn
    have hbounds := run_bounds hn
    exact ⟨Nat.sub_le_of_le_add hbounds.1, hbounds.2⟩
  · intro hbudget h
    obtain ⟨n, hn, hle⟩ := hnone.mp h
    have hbounds := run_bounds hn
    omega

/-! ## A run that leaves the words -/

/-- A memory in which every byte is NOP. -/
def nops : Memory := { Memory.full with data := .replicate 65536 0xEA }

theorem read_nops (a : UInt16) : Bus.read nops a = 0xEA := by
  show nops.read a = 0xEA
  rw [Memory.read_eq]
  exact (if_pos a.toNat_lt).trans (Vector.getElem_replicate _)

/-- The machine is in such a memory, and nothing waits. -/
structure Sliding (c : Cpu Memory) : Prop where
  pending : c.pending = .idle
  bus : c.bus = nops

namespace Sliding

variable {c : Cpu Memory}

theorem opcode (h : c.Sliding) : c.opcode? = some ⟨0xEA, .implied .nop, .implicit, 2⟩ := by
  rw [opcode?, h.bus, read_nops]
  rfl

theorem due (h : c.Sliding) : c.due? = none := by
  rw [due?, h.pending]
  rfl

/-- Every step takes two cycles, and leads to such a machine again. -/
theorem step (h : c.Sliding) : c.step.2.Sliding ∧ c.step.1 = .ok (.instruction 0xEA 2) := by
  rw [step_of_not_due h.due, fetch_of_opcode h.opcode]
  exact ⟨⟨h.pending, h.bus⟩, rfl⟩

theorem steps {d : Cpu Memory} {ss : List Step} (h : c.Sliding) (hsteps : c.Steps ss d) :
    d.Sliding ∧ Step.total ss = 2 * ss.length := by
  refine Steps.total_of_step (fun c hc => ⟨hc.step.1, fun s hs => ?_⟩) h hsteps
  rw [hc.step.2] at hs
  cases hs
  rfl

/-- A run executes the budget, rounded up to an even number. -/
theorem run (h : c.Sliding) (hcarry : c.carry = 0) {budget : Nat} (hpos : 0 < budget) :
    (c.run budget).1 = .ok (2 * ((budget + 1) / 2)) := by
  have hlt : c.carry < budget := by omega
  obtain ⟨ss, d, hsteps, hbelow, hlast⟩ := c.exists_last_step (Nat.sub_pos_of_lt hlt)
  obtain ⟨hd, htotal⟩ := h.steps hsteps
  have hstep : d.step = (.ok (.instruction 0xEA 2), d.step.2) := Prod.ext hd.step.2 rfl
  have hreach : budget - c.carry ≤ 0 + Step.total ss + 2 := hlast _ hd.step.2
  rw [Nat.zero_add] at hbelow hreach
  rw [run_of_reached hlt hsteps hbelow hstep hreach]
  refine congrArg Except.ok ?_
  show Step.total ss + 2 = 2 * ((budget + 1) / 2)
  omega

end Sliding

/-- A machine in a memory that holds nothing but NOP. -/
def sliding : Cpu Memory := .powerOn {} {} nops

theorem sliding_sliding : sliding.Sliding := ⟨rfl, rfl⟩

theorem run_within_words_sliding :
    ∃ r d, (sliding.run64 0xFFFFFFFFFFFFFFF9).2 = some (r, d) ∧
      r.map UInt64.toNat = .ok 0xFFFFFFFFFFFFFFFA := by
  have hrun : (sliding.run 0xFFFFFFFFFFFFFFF9).1 = .ok 0xFFFFFFFFFFFFFFFA :=
    sliding_sliding.run rfl (by decide)
  obtain ⟨-, -, hsome, -, hfits⟩ := run_within_words sliding 0xFFFFFFFFFFFFFFF9
  obtain ⟨⟨r, d⟩, hrd⟩ := Option.ne_none_iff_exists'.mp (hfits (by decide))
  exact ⟨r, d, hrd, ((hsome r d).mp hrd).1.trans hrun⟩

/-- **A run that leaves the words.** For the largest budget there is, a machine that has just been
switched on executes `2 ^ 64` cycles, and in words that is no outcome. -/
theorem run_leaves_words :
    Reachable sliding ∧
      (sliding.run 0xFFFFFFFFFFFFFFFF).1 = .ok (2 ^ 64) ∧
      (sliding.run64 0xFFFFFFFFFFFFFFFF).2 = none := by
  have hrun : (sliding.run 0xFFFFFFFFFFFFFFFF).1 = .ok (2 ^ 64) :=
    sliding_sliding.run rfl (by decide)
  refine ⟨.powerOn _ _ _, hrun, ?_⟩
  rw [run64_eq_inWords]
  exact inWords_eq_none_iff.mpr ⟨2 ^ 64, hrun, Nat.le_refl _⟩

end Cpu

end Nmos6502
