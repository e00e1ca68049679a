import Nmos6502.Proofs.Counts
import Nmos6502.Proofs.Flow

/-!
# What each step costs

The price of a step can be read off the byte at the program counter, except for branches. Serving an
interrupt takes seven cycles, passing over an illegal byte two, and an instruction what its opcode
says, whatever its mode and wherever an index takes it. A branch takes two. When it is taken it
takes one more, and yet another if it leaves the page.

The page is the one of the next instruction, and not that of the branch. Both ends of the address
space are ends of a page, so a branch that wraps around leaves its page, and one in the last two
bytes of the address space starts out from page 0.

The page that a taken branch goes to is read off the program counter after the step. So the price is
tied to where the branch went, and not to a second calculation of its target.

## Main results

* `Cpu.cost_of_branch`, `Cpu.cost_of_not_branch` — what an instruction costs
* `Cpu.step_eq_instruction` — what a step that executes one reports
* `Cpu.cycles_step_of_error` — a step that fails costs nothing
* `Cpu.step_cost_exact` — all of it, for every machine
-/

universe u

namespace Nmos6502

/-- Every branch has its test. -/
theorem Branch.exists_test (b : Branch) : ∃ t ∈ BranchTest.all, b.name = t.name := by
  cases b <;> simp [BranchTest.all, name]

namespace Cpu

variable {β : Type u} [Bus β]

/-! ## What an instruction costs -/

/-- A branch takes two cycles, one more when it is taken, and yet another when it leaves the page of
the next instruction. -/
theorem cost_of_branch {c : Cpu β} {o : Opcode} {b : Branch} (ho : c.opcode? = some o)
    (hb : o.operation = .branch b) :
    c.cost o = if c.regs.p.contains b.flag = b.wanted then
        if (c.execute o.operation).regs.pc.toNat / 256 = (c.regs.pc + 2).toNat / 256 then 3 else 4
      else 2 := by
  have hmnemonic : o.mnemonic = .branch b := by
    rw [← Opcode.mnemonic_operation (documented_of_opcode ho), hb]
    rfl
  have hmode : o.mode = .relative := by
    rw [← Opcode.mode_operation (documented_of_opcode ho), hb]
    rfl
  have htwo : o.cycles = 2 := Opcode.cycles_of_relative (documented_of_opcode ho) hmode
  have hnext : c.regs.pc + UInt16.ofNat o.size = c.regs.pc + 2 := by
    rw [Opcode.size, hmode]
    rfl
  have hpc := c.pc_execute_branch b
  simp only [cost, hmnemonic, hnext, hb]
  by_cases htaken : c.regs.p.contains b.flag = b.wanted
  · rw [if_pos htaken] at hpc
    have hpage : samePage (c.regs.pc + 2) (c.branchTarget (c.regs.pc + 2)) = true ↔
        (c.branchTarget (c.regs.pc + 2)).toNat / 256 = (c.regs.pc + 2).toNat / 256 :=
      samePage_iff.trans eq_comm
    simp only [Branch.taken, htaken, beq_self_eq_true, if_true, hpc, hpage, htwo]
  · simp only [Branch.taken, htaken, beq_iff_eq, if_false, htwo]

/-- Any other instruction takes what its opcode says. -/
theorem cost_of_not_branch (c : Cpu β) {o : Opcode} (h : ∀ b, o.mnemonic ≠ .branch b) :
    c.cost o = o.cycles := by
  rw [cost]
  split
  · rename_i b hb
    exact absurd hb (h b)
  · rfl

/-! ## What a step costs -/

theorem due?_of_interrupt?_eq_none {c : Cpu β} (h : c.interrupt? = none) : c.due? = none := by
  cases hd : c.due? with
  | none => rfl
  | some due =>
    rw [interrupt?_of_due hd] at h
    cases h

/-- **What a step that executes an instruction reports**: its opcode, and what it costs. -/
theorem step_eq_instruction {c : Cpu β} {o : Opcode} (hi : c.interrupt? = none)
    (ho : c.opcode? = some o) :
    c.step.1 = .ok (.instruction o.byte (c.cost o)) ∧
      c.step.2.regs = (c.execute o.operation).regs := by
  have hd := due?_of_interrupt?_eq_none hi
  have hbrk : o.mnemonic ≠ .stacked .brk := by
    intro hbrk
    rw [interrupt?_of_not_due hd, if_pos ((mnemonic_eq_brk_iff ho).mp hbrk)] at hi
    cases hi
  obtain ⟨hstep, hregs⟩ := step_of_opcode hd ho
  rw [report, if_neg hbrk] at hstep
  exact ⟨hstep, hregs⟩

/-- **A step that fails costs nothing.** -/
theorem cycles_step_of_error {c : Cpu β} {f : Fault} (h : c.step.1 = .error f) :
    c.step.2.cycles = c.cycles := by
  rw [step_of_error h]
  rfl

/-- **What each step costs.** For every machine on every bus: a step that serves an interrupt, BRK
among them, takes seven cycles. A step that passes over an illegal byte takes two. A step that
executes an instruction takes what its opcode says, unless its mnemonic is that of a branch: then it
takes two cycles if the flag that this names has not the value that it names, and otherwise three or
four, by whether it goes on in the page of the next instruction. What a successful step reports is
what the counter grows by modulo `2 ^ 64`, between two and seven, and a step that fails leaves the
counter alone. -/
theorem step_cost_exact (c : Cpu β) :
    (∀ i, c.interrupt? = some i → c.step.1 = .ok (.interrupt i 7)) ∧
    (c.interrupt? = none → c.opcode? = none → ∀ s, c.step.1 = .ok s →
      s = .skipped (Bus.read c.bus c.regs.pc) 2) ∧
    (∀ o, c.interrupt? = none → c.opcode? = some o →
      ∃ n, c.step.1 = .ok (.instruction o.byte n) ∧
        (∀ t ∈ BranchTest.all, o.mnemonic.name = t.name →
          n = if c.regs.p.contains t.flag = t.value then
              if c.step.2.regs.pc.toNat / 256 = (c.regs.pc.toNat + 2) % 65536 / 256 then 3 else 4
            else 2) ∧
        ((∀ t ∈ BranchTest.all, o.mnemonic.name ≠ t.name) → n = o.cycles)) ∧
    (∀ s, c.step.1 = .ok s →
      c.step.2.cycles = c.cycles + UInt64.ofNat s.cycles ∧ 2 ≤ s.cycles ∧ s.cycles ≤ 7) ∧
    (∀ f, c.step.1 = .error f → c.step.2.cycles = c.cycles) := by
  refine ⟨?_, ?_, ?_, ?_, ?_⟩
  · intro i hi
    exact (c.step_eq_interrupt_iff i 7).mpr ⟨hi, rfl⟩
  · intro hi ho s hs
    have hd := due?_of_interrupt?_eq_none hi
    cases hp : c.config.decodePolicy with
    | halt =>
      rw [step_of_not_due hd, fetch_of_halt ho hp] at hs
      cases hs
    | skip =>
      rw [step_of_not_due hd, fetch_of_skip ho hp] at hs
      cases hs
      rfl
  · intro o hi ho
    obtain ⟨hstep, hregs⟩ := step_eq_instruction hi ho
    refine ⟨c.cost o, hstep, ?_, ?_⟩
    · intro t ht hname
      rw [← Opcode.mnemonic_operation (documented_of_opcode ho)] at hname
      obtain ⟨b, hb, hflag, hvalue⟩ := Operation.branch_of_name ht hname
      rw [cost_of_branch ho hb, hflag, hvalue, hregs]
      rfl
    · intro hother
      refine c.cost_of_not_branch fun b hb => ?_
      obtain ⟨t, ht, hname⟩ := b.exists_test
      exact hother t ht (hb ▸ hname)
  · intro s hs
    exact ⟨cycles_step hs, cycles_step_bounds hs⟩
  · intro f hf
    exact cycles_step_of_error hf

/-- The BNE in the last two bytes of the address space goes back by five bytes, and leaves page 0
with that. -/
theorem step_cost_exact_atLastBranch :
    atLastBranch.step.1 = .ok (.instruction 0xD0 4) := by
  obtain ⟨-, -, hinstruction, -⟩ := atLastBranch.step_cost_exact
  obtain ⟨n, hstep, hbranch, -⟩ := hinstruction ⟨0xD0, .branch .bne, .relative, 2⟩ rfl rfl
  have ht : (⟨"BNE", Status.zero, false⟩ : BranchTest) ∈ BranchTest.all := by
    simp [BranchTest.all]
  have hn : n = 4 := hbranch _ ht rfl
  rw [hstep, hn]

end Cpu

end Nmos6502
