import Nmos6502.Host
import Nmos6502.Proofs.Ledger
import Nmos6502.Proofs.Service

/-!
# The cycles of a run, as a host counts them

What a run reports is what the counter of the machine grew by: both are the cycles of the steps
between its first machine and its last, which is `Cpu.exists_steps_of_run`. A host asks for a budget
of 32 bits and gets the report in 32 bits. The last step may go over the budget by six cycles, so
the six largest budgets can lead to a count that does not fit, and the host is then told what goes
beyond `2 ^ 32`. For any other budget it is told the cycles that were executed.

## The run that is told short

It takes billions of cycles, so it is not evaluated. A machine with one byte of memory, which is
zero, executes BRK at address 0 for ever: nothing that it pushes is kept, and the vector that it
reads is zero. Every step costs seven cycles. So whatever the budget, the cycles of a run are the
next multiple of seven, and for the largest budget that is more than 32 bits hold.

## Main definitions

* `Host.executed` — what the counter grows by during a run
* `Cpu.Looping` — the machines that execute BRK at address 0 for ever

## Main results

* `Cpu.cycles_step`, `Cpu.exists_steps_of_run`, `Cpu.cycles_run` — the counter and the report
* `Cpu.Steps.total_of_step` — the cycles of steps that all take the same time
* `Host.run_counts_cycles` — what a host is told
* `Cpu.Looping.step`, `Cpu.Looping.run` — one step and a run of the loop
* `Host.run_told_short` — a run of more than `2 ^ 32` cycles of which three are told
-/

universe u

namespace Nmos6502

namespace Cpu

variable {β : Type u} [Bus β]

/-! ## The counter -/

@[simp] theorem cycles_execute (c : Cpu β) (o : Operation) :
    (c.execute o).cycles = c.cycles := by rw [execute_eq]

/-- A step that succeeds counts the cycles that it reports. -/
theorem cycles_step {c : Cpu β} {s : Step} (h : c.step.1 = .ok s) :
    c.step.2.cycles = c.cycles + UInt64.ofNat s.cycles := by
  revert h
  refine c.step_cases ?_ ?_ ?_ ?_
  · rintro r rest - ⟨⟩
    rfl
  · rintro o - - ⟨⟩
    rw [cycles_report]
    exact congrArg (· + UInt64.ofNat (c.cost o)) (cycles_execute _ o.operation)
  · nofun
  · rintro - - - ⟨⟩
    rfl

theorem Steps.cycles {c d : Cpu β} {ss : List Step} (h : c.Steps ss d) :
    d.cycles = c.cycles + UInt64.ofNat (Step.total ss) := by
  induction h with
  | nil c => exact (UInt64.add_zero _).symm
  | @cons c c' d s ss first rest ih =>
    have hfirst : c'.cycles = c.cycles + UInt64.ofNat s.cycles := by
      have hcount := cycles_step (c := c) (s := s) (by rw [first])
      rwa [first] at hcount
    rw [ih, hfirst, Step.total_cons, UInt64.ofNat_add, UInt64.add_assoc]

/-- Where every step takes the same time and leads to a machine of the same kind, the cycles are
counted by the steps. -/
theorem Steps.total_of_step {P : Cpu β → Prop} {n : Nat}
    (step : ∀ c, P c → P c.step.2 ∧ ∀ s, c.step.1 = .ok s → s.cycles = n) {c d : Cpu β}
    {ss : List Step} (hc : P c) (h : c.Steps ss d) : P d ∧ Step.total ss = n * ss.length := by
  induction h with
  | nil c => exact ⟨hc, rfl⟩
  | @cons c c' d s ss first rest ih =>
    obtain ⟨hnext, hcost⟩ := step c hc
    rw [first] at hnext hcost
    obtain ⟨hd, htotal⟩ := ih hnext
    refine ⟨hd, ?_⟩
    rw [Step.total_cons, hcost s rfl, htotal, List.length_cons, Nat.mul_succ, Nat.add_comm]

/-- What a loop has consumed at its end are the cycles of the steps that lead there. -/
theorem exists_steps_of_runTo {c : Cpu β} {target consumed n : Nat}
    (h : (runTo target consumed c).1 = .ok n) :
    ∃ ss d, c.Steps ss d ∧ n = consumed + Step.total ss ∧
      (runTo target consumed c).2.cycles = d.cycles := by
  revert h
  refine runTo_induction target ?_ ?_ ?_ consumed c
  · intro k c hk h
    rw [runTo_of_le hk] at h ⊢
    cases h
    exact ⟨[], c, .nil c, rfl, rfl⟩
  · intro k c c' f hk hs h
    rw [runTo_of_fault hk hs] at h
    cases h
  · intro k c c' s hk hs ih h
    rw [runTo_of_step hk hs] at h ⊢
    obtain ⟨ss, d, hsteps, hn, hcycles⟩ := ih h
    exact ⟨s :: ss, d, .cons hs hsteps, by rw [hn, Step.total_cons, Nat.add_assoc], hcycles⟩

/-- **What a run reports are the cycles of its steps.** -/
theorem exists_steps_of_run {c : Cpu β} {budget n : Nat} (h : (c.run budget).1 = .ok n) :
    ∃ ss d, c.Steps ss d ∧ n = Step.total ss ∧ (c.run budget).2.cycles = d.cycles := by
  by_cases hb : budget ≤ c.carry
  · rw [run_of_le hb] at h ⊢
    cases h
    exact ⟨[], c, .nil c, rfl, rfl⟩
  · rw [run_of_lt (Nat.not_le.mp hb)] at h ⊢
    obtain ⟨ss, d, hsteps, hn, hcycles⟩ := exists_steps_of_runTo h
    exact ⟨ss, d, hsteps, hn.trans (Nat.zero_add _), hcycles⟩

/-- **What a run reports is what the counter grows by.** -/
theorem cycles_run {c : Cpu β} {budget n : Nat} (h : (c.run budget).1 = .ok n) :
    (c.run budget).2.cycles = c.cycles + UInt64.ofNat n := by
  obtain ⟨ss, d, hsteps, rfl, hcycles⟩ := exists_steps_of_run h
  rw [hcycles, hsteps.cycles]

/-- A run executes what is left of its budget after the carry, and six cycles more at most. -/
theorem run_bounds {c : Cpu β} {budget n : Nat} (h : (c.run budget).1 = .ok n) :
    budget ≤ n + c.carry ∧ n ≤ budget - c.carry + 6 := by
  have hbalance := balance_run h
  by_cases hb : budget ≤ c.carry
  · rw [run_of_le hb] at h
    cases h
    omega
  · rcases run_outcome (Nat.not_le.mp hb) with ⟨m, -, -, hle⟩ | ⟨f, hf, -⟩
    · omega
    · rw [hf] at h
      cases h

/-! ## A loop of BRK -/

/-- One byte is installed, which is zero, and the machine is there: at a BRK whose pushes are lost
and whose vector is zero. -/
structure Looping (c : Cpu Memory) : Prop where
  pending : c.pending = .idle
  pc : c.regs.pc = 0
  size : c.bus.size = 1
  byte : c.bus.stored 0 = 0
  config : c.config = { decodePolicy := .skip }

namespace Looping

variable {c : Cpu Memory}

theorem read_eq_zero (h : c.Looping) (a : UInt16) : Bus.read c.bus a = 0 := by
  show c.bus.read a = 0
  rw [Memory.read_eq, h.size]
  split
  · have ha : a = 0 := UInt16.toNat_inj.mp (Nat.lt_one_iff.mp ‹_›)
    rw [ha]
    exact h.byte
  · rfl

/-- Nothing in the stack page is installed. -/
theorem write_stack (h : c.Looping) (slot b : UInt8) :
    Bus.write c.bus (c.stackAddress slot) b = c.bus := by
  have habove : c.bus.inRange (c.stackAddress slot) = false := by
    rw [Memory.inRange, h.size, stackAddress, toNat_word, h.config]
    exact decide_eq_false (by show ¬ 1 * 256 + slot.toNat < 1; omega)
  show c.bus.write _ b = c.bus
  rw [Memory.write, habove]
  rfl

theorem bus_serve (h : c.Looping) : (c.serve .brk).bus = c.bus := by
  rw [bus_serve_eq, serviceWrites, Bus.writes]
  simp only [List.foldl_cons, List.foldl_nil, h.write_stack]

/-- **A step of the loop** takes seven cycles and leads back. -/
theorem step (h : c.Looping) : c.step.1 = .ok (.interrupt .brk 7) ∧ c.step.2.Looping := by
  have hdue : c.due? = none := by rw [due?, h.pending]; rfl
  have hbrk : c.interrupt? = some .brk := by
    rw [interrupt?_of_not_due hdue, if_pos (h.read_eq_zero _)]
  obtain ⟨hregs, hbus⟩ := step_of_interrupt hbrk
  rw [h.bus_serve] at hbus
  refine ⟨(c.step_eq_interrupt_iff .brk 7).mpr ⟨hbrk, rfl⟩, ?_, ?_, ?_, ?_, ?_⟩
  · rw [step_of_not_due hdue, pending_fetch, h.pending]
  · have hpc : (c.serve .brk).regs.pc = Bus.readWord (c.serve .brk).bus c.config.irqVector := rfl
    rw [hregs, hpc, h.bus_serve, Bus.readWord, h.read_eq_zero, h.read_eq_zero]
    rfl
  · rw [hbus, h.size]
  · rw [hbus, h.byte]
  · rw [config_step, h.config]

theorem steps {d : Cpu Memory} {ss : List Step} (h : c.Looping) (hsteps : c.Steps ss d) :
    7 ∣ Step.total ss := by
  have hround : ∀ c : Cpu Memory, c.Looping →
      c.step.2.Looping ∧ ∀ s, c.step.1 = .ok s → s.cycles = 7 := by
    intro c hc
    refine ⟨hc.step.2, fun s hs => ?_⟩
    rw [hc.step.1] at hs
    cases hs
    rfl
  exact ⟨ss.length, (Steps.total_of_step hround h hsteps).2⟩

/-- **A run of the loop** executes the budget, rounded up to whole rounds. -/
theorem run (h : c.Looping) (hcarry : c.carry = 0) (budget : Nat) :
    ∃ n, (c.run budget).1 = .ok n ∧ 7 ∣ n ∧ budget ≤ n ∧ n ≤ budget + 6 := by
  obtain ⟨n, hn⟩ := run_ok_of_skip (c := c) (by rw [h.config]) budget
  obtain ⟨ss, d, hsteps, htotal, -⟩ := exists_steps_of_run hn
  have hbounds := run_bounds hn
  rw [hcarry] at hbounds
  refine ⟨n, hn, ?_, hbounds.1, hbounds.2⟩
  rw [htotal]
  exact h.steps hsteps

end Looping

end Cpu

/-! ## What a host is told -/

namespace Host

/-- What the counter of cycles grows by during a run. -/
def executed (h : Host) (budget : UInt32) : UInt64 := (h.run budget).2.cpu.cycles - h.cpu.cycles

theorem run_of_ok {h : Host} {budget : UInt32} {n : Nat}
    (hn : (h.cpu.run budget.toNat).1 = .ok n) : (h.run budget).1 = .ok (UInt32.ofNat n) := by
  show failing ((h.cpu.run budget.toNat).1.map UInt32.ofNat) = _
  rw [hn]
  rfl

theorem exists_run_of_ok {h : Host} {budget n : UInt32} (hn : (h.run budget).1 = .ok n) :
    ∃ m, (h.cpu.run budget.toNat).1 = .ok m ∧ n = UInt32.ofNat m := by
  change failing ((h.cpu.run budget.toNat).1.map UInt32.ofNat) = _ at hn
  cases hm : (h.cpu.run budget.toNat).1 with
  | error f =>
    rw [hm] at hn
    cases hn
  | ok m =>
    rw [hm] at hn
    cases hn
    exact ⟨m, rfl, rfl⟩

theorem executed_of_ok {h : Host} {budget : UInt32} {n : Nat}
    (hn : (h.cpu.run budget.toNat).1 = .ok n) : h.executed budget = UInt64.ofNat n := by
  have hcycles : (h.run budget).2.cpu.cycles = h.cpu.cycles + UInt64.ofNat n := Cpu.cycles_run hn
  rw [executed, hcycles]
  grind

/-- **What a host is told.** If a run succeeds, the host is told the low 32 bits of what the counter
grew by, which is six more than was left of the budget at most. That is the whole of it exactly if
it is below `2 ^ 32`, and so it is unless the budget is one of the six largest, the carry taken off.
-/
theorem run_counts_cycles {h : Host} {budget n : UInt32} (hn : (h.run budget).1 = .ok n) :
    n = (h.executed budget).toUInt32 ∧
    (h.executed budget).toNat ≤ budget.toNat - h.cpu.carry + 6 ∧
    (n.toNat = (h.executed budget).toNat ↔ (h.executed budget).toNat < 2 ^ 32) ∧
    (budget.toNat ≤ h.cpu.carry + (2 ^ 32 - 7) → n.toNat = (h.executed budget).toNat) := by
  obtain ⟨m, hm, rfl⟩ := exists_run_of_ok hn
  have hbudget := budget.toNat_lt
  have hbound : m ≤ budget.toNat - h.cpu.carry + 6 := (Cpu.run_bounds hm).2
  have hexecuted : (h.executed budget).toNat = m := by
    rw [executed_of_ok hm, UInt64.toNat_ofNat', Nat.mod_eq_of_lt (by omega)]
  have htold : (UInt32.ofNat m).toNat = m % 2 ^ 32 := UInt32.toNat_ofNat'
  refine ⟨?_, ?_, ?_, ?_⟩
  · refine UInt32.toNat_inj.mp ?_
    rw [htold, UInt64.toNat_toUInt32, hexecuted]
  · rw [hexecuted]
    exact hbound
  · rw [htold, hexecuted]
    omega
  · intro hfits
    rw [htold, hexecuted]
    omega

/-- A memory with one byte. -/
def oneByte : Memory := ⟨.replicate 65536 0, 1, by decide, by decide⟩

/-- A machine with one byte of memory, in a host. -/
def looping : Host := ⟨.powerOn { decodePolicy := .skip } {} oneByte⟩

theorem build_one : build 1 true = .ok looping := rfl

theorem looping_cpu : looping.cpu.Looping where
  pending := rfl
  pc := rfl
  size := rfl
  byte := by
    show (Vector.replicate 65536 (0 : UInt8))[0] = 0
    exact Vector.getElem_replicate (by decide)
  config := rfl

theorem run_looping (budget : UInt32) :
    ∃ n, (looping.cpu.run budget.toNat).1 = .ok n ∧
      7 ∣ n ∧ budget.toNat ≤ n ∧ n ≤ budget.toNat + 6 :=
  looping_cpu.run rfl budget.toNat

theorem run_counts_cycles_looping :
    (looping.run 7).1 = .ok 7 ∧ (7 : UInt32).toNat = (looping.executed 7).toNat := by
  obtain ⟨n, hn, hround, hle, hlt⟩ := run_looping 7
  have hbudget : (7 : UInt32).toNat = 7 := rfl
  rw [hbudget] at hle hlt
  obtain rfl : n = 7 := by omega
  have htold : (looping.run 7).1 = .ok 7 := run_of_ok hn
  have hcounts := run_counts_cycles htold
  exact ⟨htold, hcounts.2.2.2 (by decide)⟩

/-- **A run that is told short.** For the largest budget there is, the loop executes `2 ^ 32 + 3`
cycles, and the host is told three. -/
theorem run_told_short :
    build 1 true = .ok looping ∧ (looping.run 4294967295).1 = .ok 3 ∧
      looping.executed 4294967295 = 4294967299 := by
  obtain ⟨n, hn, hround, hle, hlt⟩ := run_looping 4294967295
  have hbudget : (4294967295 : UInt32).toNat = 4294967295 := rfl
  rw [hbudget] at hle hlt
  obtain rfl : n = 4294967299 := by omega
  have htold : (looping.run 4294967295).1 = .ok (UInt32.ofNat 4294967299) := run_of_ok hn
  have hcut : UInt32.ofNat 4294967299 = 3 := by decide
  rw [hcut] at htold
  exact ⟨build_one, htold, executed_of_ok hn⟩

end Host

end Nmos6502
