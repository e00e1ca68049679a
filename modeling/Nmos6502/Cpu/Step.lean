import Nmos6502.Cpu.Execute

/-!
# Steps and runs

A step serves a waiting request, or executes the instruction at the program counter, or meets a byte
that is not one. A run is as many steps as it takes to spend a budget of cycles. The last step of a
run may go over the budget; what it went over by is carried, and comes off the next budget, so that
over many runs the cycles executed keep up with the cycles asked for.

Budgets and carries are natural numbers, so no budget is too large to be added to. A step takes at
least two cycles, which is why a run ends. What a step is made of is marked for inlining, so that a
run is compiled to one loop.

## Main definitions

* `Step` — what a step did, with its cycles
* `Cpu.step`, `Cpu.run`
* `Cpu.resetCycles`

## Main results

* `Cpu.cycles_step_pos` — every step that succeeds takes time
* `Cpu.runTo_of_le`, `Cpu.runTo_of_step`, `Cpu.runTo_of_fault` — a run, one step at a time
-/

universe u

namespace Nmos6502

/-- What a step did. -/
inductive Step
  /-- It executed an instruction. -/
  | instruction (opcode : UInt8) (cycles : Nat)
  /-- It served an IRQ, an NMI or a BRK. -/
  | interrupt (i : Interrupt) (cycles : Nat)
  /-- It passed over an illegal byte. -/
  | skipped (opcode : UInt8) (cycles : Nat)
  deriving DecidableEq, Repr

@[inline] def Step.cycles : Step → Nat
  | instruction _ n | interrupt _ n | skipped _ n => n

namespace Cpu

variable {β : Type u} [Bus β]

/-- Cycles for serving an IRQ or an NMI. -/
def serviceCycles : Nat := 7

/-- Cycles for passing over an illegal byte. -/
def skipCycles : Nat := 2

@[inline] def charge (c : Cpu β) (n : Nat) : Cpu β := { c with cycles := c.cycles + UInt64.ofNat n }

/-! ## One step -/

/-- A step reports BRK as an interrupt, and any other opcode as itself. -/
@[inline] def report (o : Opcode) (cycles : Nat) : Step :=
  if o.mnemonic = .stacked .brk then .interrupt .brk cycles else .instruction o.byte cycles

/-- Meet a byte that is not a documented opcode: fail, or pass over it. -/
def decodeError (c : Cpu β) (b : UInt8) : Except Fault Step × Cpu β :=
  let c := { c with decodeErrors := c.decodeErrors + 1 }
  match c.config.decodePolicy with
  | .halt =>
    (.error (.illegalOpcode b c.regs.pc), c.record (.illegalOpcode b c.regs.pc))
  | .skip =>
    let c := c.record (.skippedOpcode b c.regs.pc)
    (.ok (.skipped b skipCycles), { c with regs := c.regs.advance 1 }.charge skipCycles)

/-- Note the instruction that is about to be executed. -/
@[specialize] def trace (c : Cpu β) : Cpu β := c.record (.executing (.decodeAt c.bus c.regs.pc))

/-- Execute a row of the table at the program counter. A fault of the handler is the fault of the
step. -/
@[inline] def perform (c : Cpu β) (o : Opcode) : Except Fault Step × Cpu β :=
  let n := c.cost o
  match c.trace.dispatch o with
  | (.ok _, c) => (.ok (report o n), c.charge n)
  | (.error f, c) => (.error f, c)

/-- Execute the byte at the program counter. -/
@[inline] def fetch (c : Cpu β) : Except Fault Step × Cpu β :=
  match Opcode.ofByte? (Bus.read c.bus c.regs.pc) with
  | some o => c.perform o
  | none => c.decodeError (Bus.read c.bus c.regs.pc)

/-- Serve a request, with what then waits. -/
@[specialize]
def interrupted (c : Cpu β) (i : Interrupt) (rest : Pending) : Except Fault Step × Cpu β :=
  (.ok (.interrupt i serviceCycles), ({ c with pending := rest }.serve i).charge serviceCycles)

/-- One step: serve an NMI, or an IRQ with I clear, or else execute the byte at the program counter.
-/
@[inline] def step (c : Cpu β) : Except Fault Step × Cpu β :=
  match c.pending.take? (c.regs.p.contains Status.interruptDisable) with
  | some (i, rest) => c.interrupted i rest
  | none => c.fetch

theorem cycles_report (o : Opcode) (n : Nat) : (report o n).cycles = n := by
  rw [report]
  split <;> rfl

omit [Bus β] in
theorem cycles_decodeError_pos {c : Cpu β} {b : UInt8} {s : Step}
    (h : (c.decodeError b).1 = .ok s) : 0 < s.cycles := by
  rw [decodeError] at h
  dsimp only at h
  split at h
  · cases h
  · cases h
    exact Nat.zero_lt_two

theorem cycles_perform_pos {c : Cpu β} {o : Opcode} {b : UInt8} (ho : Opcode.ofByte? b = some o)
    {s : Step} (h : (c.perform o).1 = .ok s) : 0 < s.cycles := by
  have htwo : 2 ≤ o.cycles := Opcode.two_le_cycles ho
  have hcost : o.cycles ≤ c.cost o := c.le_cost o
  rw [perform] at h
  split at h
  · cases h
    rw [cycles_report]
    omega
  · cases h

/-- Every step that succeeds takes time. -/
theorem cycles_step_pos {c : Cpu β} {s : Step} (h : c.step.1 = .ok s) : 0 < s.cycles := by
  rw [step] at h
  split at h
  · cases h
    exact Nat.zero_lt_succ 6
  · rw [fetch] at h
    split at h
    · rename_i o ho
      exact cycles_perform_pos ho h
    · exact cycles_decodeError_pos h

/-! ## Many steps -/

/-- Step until the cycles consumed reach the target. -/
@[specialize] def runTo (target consumed : Nat) (c : Cpu β) : Except Fault Nat × Cpu β :=
  if consumed < target then
    match h : c.step with
    | (.ok s, c') =>
      have : 0 < s.cycles := cycles_step_pos (by rw [h])
      runTo target (consumed + s.cycles) c'
    | (.error f, c') => (.error f, { c' with carry := 0 })
  else (.ok consumed, { c with carry := consumed - target })
  termination_by target - consumed

theorem runTo_of_le {c : Cpu β} {target consumed : Nat} (h : target ≤ consumed) :
    runTo target consumed c = (.ok consumed, { c with carry := consumed - target }) := by
  rw [runTo, if_neg (Nat.not_lt.mpr h)]

theorem runTo_of_step {c c' : Cpu β} {target consumed : Nat} {s : Step} (h : consumed < target)
    (hs : c.step = (.ok s, c')) :
    runTo target consumed c = runTo target (consumed + s.cycles) c' := by
  rw [runTo, if_pos h]
  split <;> simp_all

theorem runTo_of_fault {c c' : Cpu β} {target consumed : Nat} {f : Fault} (h : consumed < target)
    (hs : c.step = (.error f, c')) :
    runTo target consumed c = (.error f, { c' with carry := 0 }) := by
  rw [runTo, if_pos h]
  split <;> simp_all

/-- Run for a budget of cycles, and say how many were executed. A carry that covers the budget is
used up by it and nothing is executed. A fault ends the run and clears the carry. -/
@[specialize] def run (c : Cpu β) (budget : Nat) : Except Fault Nat × Cpu β :=
  if budget ≤ c.carry then (.ok 0, { c with carry := c.carry - budget })
  else runTo (budget - c.carry) 0 c

/-- Clear the counter of cycles, and the carry with it. -/
def resetCycles (c : Cpu β) : Cpu β := { c with cycles := 0, carry := 0 }

end Cpu

end Nmos6502
