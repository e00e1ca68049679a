import Nmos6502.Proofs.Frame
import Nmos6502.Proofs.Ram

/-!
# A step follows the listing

A listing tells a reader where the program goes on: behind the line, or at the address that a
branch, JMP or JSR names. The processor does not look at the listing. It reads the operand again,
adds up the size of the instruction for itself and moves by a displacement where the line prints an
address. This module shows that the two agree, for the line at the program counter of any machine
that is about to execute it.

The line is read before the step. An instruction may write to its own bytes, and JSR writes to the
stack before it goes on; neither changes where it goes.

## What the mnemonics mean

Which instructions go on behind themselves, which flag a branch tests and which value it waits for
is what their mnemonics stand for. It is written down here from the printed mnemonics, in
`BranchTest.all` and `redirecting`, apart from the operations that the opcode table assigns.

## Main definitions

* `BranchTest` — the mnemonic of a branch, with the flag and the value that it names
* `Operation.Sequential` — the next instruction is the one behind
* `Cpu.line` — the line at the program counter

## Main results

* `Cpu.pc_execute` — most instructions go on behind themselves
* `Cpu.text_line_eq_iff` — the address that the line of a branch prints
* `Cpu.step_follows_line` — where a step goes on, by its line
-/

universe u

namespace Nmos6502

/-! ## What the mnemonics mean -/

/-- The mnemonic of a branch, the flag that it tests and the value for which it is taken. -/
structure BranchTest where
  name : String
  flag : UInt8
  value : Bool

/-- The eight branches, by what their mnemonics stand for: "branch if carry clear" and so on. -/
def BranchTest.all : List BranchTest := [
  ⟨"BCC", Status.carry, false⟩, ⟨"BCS", Status.carry, true⟩,
  ⟨"BNE", Status.zero, false⟩, ⟨"BEQ", Status.zero, true⟩,
  ⟨"BPL", Status.negative, false⟩, ⟨"BMI", Status.negative, true⟩,
  ⟨"BVC", Status.overflow, false⟩, ⟨"BVS", Status.overflow, true⟩]

/-- The mnemonics of the instructions that need not go on behind themselves. -/
def redirecting : List String :=
  ["BCC", "BCS", "BNE", "BEQ", "BPL", "BMI", "BVC", "BVS", "JMP", "JSR", "RTS", "RTI", "BRK"]

namespace Operation

/-- The next instruction is the one behind. -/
def Sequential : Operation → Prop
  | branch _ | jump _ | call | stacked .rts | stacked .rti | stacked .brk => False
  | _ => True

/-- The instructions that need not go on behind themselves are known by their mnemonics. -/
theorem sequential_iff {o : Operation} : o.Sequential ↔ o.mnemonic.name ∉ redirecting := by
  cases o with
  | read r p => cases r <;> simp [Sequential, mnemonic, Mnemonic.name, Reader.name, redirecting]
  | write w p => cases w <;> simp [Sequential, mnemonic, Mnemonic.name, Writer.name, redirecting]
  | modify m p =>
    cases m with
    | shift s =>
      cases s <;>
        simp [Sequential, mnemonic, Mnemonic.name, Modifier.name, Shift.name, redirecting]
    | inc | dec => simp [Sequential, mnemonic, Mnemonic.name, Modifier.name, redirecting]
  | shift s =>
    cases s <;>
      simp [Sequential, mnemonic, Mnemonic.name, Modifier.name, Shift.name, redirecting]
  | branch b => cases b <;> simp [Sequential, mnemonic, Mnemonic.name, Branch.name, redirecting]
  | jump p => simp [Sequential, mnemonic, Mnemonic.name, redirecting]
  | call => simp [Sequential, mnemonic, Mnemonic.name, redirecting]
  | implied i => cases i <;> simp [Sequential, mnemonic, Mnemonic.name, Implied.name, redirecting]
  | stacked s => cases s <;> simp [Sequential, mnemonic, Mnemonic.name, Stacked.name, redirecting]

theorem not_sequential_of_name {o : Operation} {name : String} (h : o.mnemonic.name = name)
    (hname : name ∈ redirecting) : ¬ o.Sequential := by
  rw [sequential_iff, h]
  exact not_not_intro hname

theorem jump_of_name {o : Operation} (h : o.mnemonic.name = "JMP") : ∃ p, o = .jump p := by
  have hn := not_sequential_of_name h (by simp [redirecting])
  cases o with
  | jump p => exact ⟨p, rfl⟩
  | branch b => cases b <;> simp [mnemonic, Mnemonic.name, Branch.name] at h
  | call => simp [mnemonic, Mnemonic.name] at h
  | stacked s => cases s <;> simp [mnemonic, Mnemonic.name, Stacked.name] at h
  | _ => exact absurd trivial hn

theorem call_of_name {o : Operation} (h : o.mnemonic.name = "JSR") : o = .call := by
  have hn := not_sequential_of_name h (by simp [redirecting])
  cases o with
  | call => rfl
  | branch b => cases b <;> simp [mnemonic, Mnemonic.name, Branch.name] at h
  | jump p => simp [mnemonic, Mnemonic.name] at h
  | stacked s => cases s <;> simp [mnemonic, Mnemonic.name, Stacked.name] at h
  | _ => exact absurd trivial hn

end Operation

/-- The test of a branch is the one that its mnemonic names. -/
theorem Branch.test_of_name {b : Branch} {t : BranchTest} (ht : t ∈ BranchTest.all)
    (h : b.name = t.name) : b.flag = t.flag ∧ b.wanted = t.value := by
  revert t
  cases b <;> simp [BranchTest.all, name, flag, wanted]

theorem Operation.branch_of_name {o : Operation} {t : BranchTest} (ht : t ∈ BranchTest.all)
    (h : o.mnemonic.name = t.name) : ∃ b, o = .branch b ∧ b.flag = t.flag ∧ b.wanted = t.value := by
  have hall : ∀ t ∈ BranchTest.all, t.name ∈ redirecting := by simp [BranchTest.all, redirecting]
  have hn := not_sequential_of_name h (hall t ht)
  cases o with
  | branch b => exact ⟨b, rfl, Branch.test_of_name ht h⟩
  | jump p =>
    revert t
    simp [BranchTest.all, mnemonic, Mnemonic.name]
  | call =>
    revert t
    simp [BranchTest.all, mnemonic, Mnemonic.name]
  | stacked s =>
    revert t
    cases s <;> simp [BranchTest.all, mnemonic, Mnemonic.name, Stacked.name]
  | _ => exact absurd trivial hn

namespace Cpu

variable {β : Type u} [Bus β]

/-! ## Where an operation goes on -/

/-- **Most instructions go on behind themselves.** -/
theorem pc_execute {c : Cpu β} {o : Operation} (h : o.Sequential) :
    (c.execute o).regs.pc = c.regs.pc + UInt16.ofNat o.size := by
  cases o with
  | read r p => cases r <;> rfl
  | write w p => rfl
  | modify m p => rfl
  | shift s => rfl
  | implied i => cases i <;> rfl
  | branch b => exact h.elim
  | jump p => exact h.elim
  | call => exact h.elim
  | stacked s =>
    cases s with
    | pha | php | pla | plp => rfl
    | rts | rti | brk => exact h.elim

/-- A step that executes an instruction does to the registers what the operation does. -/
theorem step_of_opcode {c : Cpu β} {o : Opcode} (hd : c.due? = none) (ho : c.opcode? = some o) :
    c.step.1 = .ok (report o (c.cost o)) ∧ c.step.2.regs = (c.execute o.operation).regs := by
  rw [step_of_not_due hd, fetch_of_opcode ho]
  exact ⟨rfl, c.regs_performed o⟩

/-! ## What the line says -/

/-- The line at the program counter. -/
def line (c : Cpu β) : Line := .decodeAt c.bus c.regs.pc

theorem line_of_opcode {c : Cpu β} {o : Opcode} (ho : c.opcode? = some o) :
    c.line = .instruction c.regs.pc o
      (Line.operandAt c.bus (c.regs.pc + 1) o.mode.operandBytes) := by
  rw [opcode?] at ho
  rw [line, Line.decodeAt, ho]

/-- **The address that the line of a branch prints** is the one that the branch goes to when it is
taken. -/
theorem text_line_eq_iff {c : Cpu β} {o : Opcode} {b : Branch} (ho : c.opcode? = some o)
    (hb : o.operation = .branch b) (w : UInt16) :
    c.line.text = b.name ++ " $" ++ Hex.word w ↔ c.branchTarget (c.regs.pc + 2) = w := by
  have htarget : Line.branchTarget c.regs.pc (Bus.read c.bus (c.regs.pc + 1)).toUInt16 =
      c.branchTarget (c.regs.pc + 2) := by
    simp [Line.branchTarget, branchTarget, lowByte]
  have htext : c.line.text = b.name ++ " $" ++ Hex.word (c.branchTarget (c.regs.pc + 2)) := by
    have hmnemonic := Opcode.mnemonic_operation (documented_of_opcode ho)
    have hmode := Opcode.mode_operation (documented_of_opcode ho)
    rw [hb] at hmnemonic hmode
    rw [line_of_opcode ho, Line.text, ← hmnemonic, ← hmode, String.append_assoc, ← htarget]
    rfl
  rw [htext, String.append_right_inj, Hex.word_inj]

/-! ## Where a step goes on -/

/-- A branch goes on where its line says if it is taken, and behind itself otherwise. -/
theorem pc_execute_branch (c : Cpu β) (b : Branch) :
    (c.execute (.branch b)).regs.pc =
      if c.regs.p.contains b.flag = b.wanted then c.branchTarget (c.regs.pc + 2)
      else c.regs.pc + 2 := by
  simp [execute_branch, branchOn, Branch.taken]

/-- **A step follows the line.** For every machine that is about to execute a documented opcode, the
line at its program counter is that of the opcode, the step succeeds, and it goes on where the line
says. An instruction whose mnemonic is not among the redirecting ones goes on behind the line. A
branch goes on at the address that the text of the line prints if the flag has the value that its
mnemonic names, and behind the line otherwise. JMP to a full address and JSR go on at the operand,
and an indirect JMP at the word there, whose second byte is in the same page. -/
theorem step_follows_line {c : Cpu β} {o : Opcode} (hd : c.due? = none)
    (ho : c.opcode? = some o) :
    c.line.opcode? = some o ∧ c.line.address = c.regs.pc ∧
    c.step.1 = .ok (report o (c.cost o)) ∧
    (o.mnemonic.name ∉ redirecting →
      c.step.2.regs.pc = c.line.address + UInt16.ofNat c.line.size) ∧
    (∀ t ∈ BranchTest.all, o.mnemonic.name = t.name →
      (c.regs.p.contains t.flag = t.value →
        ∀ w, c.line.text = t.name ++ " $" ++ Hex.word w ↔ c.step.2.regs.pc = w) ∧
      (c.regs.p.contains t.flag ≠ t.value → c.step.2.regs.pc = c.line.address + 2)) ∧
    (o.mnemonic.name ∈ ["JMP", "JSR"] → o.mode = .memory .absolute →
      c.step.2.regs.pc = c.line.operand) ∧
    (o.mnemonic.name = "JMP" → o.mode = .memory .indirect →
      c.step.2.regs.pc = word (Bus.read c.bus c.line.operand)
        (Bus.read c.bus (word (lowByte c.line.operand + 1) (highByte c.line.operand)))) := by
  obtain ⟨hok, hregs⟩ := step_of_opcode hd ho
  have hline := line_of_opcode ho
  have hsize : o.operation.size = o.size := Opcode.size_operation (documented_of_opcode ho)
  rw [hregs, ← Opcode.mnemonic_operation (documented_of_opcode ho),
    ← Opcode.mode_operation (documented_of_opcode ho)]
  refine ⟨by rw [hline]; rfl, by rw [hline]; rfl, hok, fun h => ?_, fun t ht h => ?_,
    fun h hm => ?_, fun h hm => ?_⟩
  · rw [pc_execute (Operation.sequential_iff.mpr h), hsize, hline]
    rfl
  · obtain ⟨b, hb, hflag, hvalue⟩ := Operation.branch_of_name ht h
    have hname : t.name = b.name := by rw [← h, hb, Operation.mnemonic, Mnemonic.name]
    rw [hb, pc_execute_branch, hflag, hvalue, hname]
    constructor
    · intro htaken w
      rw [if_pos htaken]
      exact text_line_eq_iff ho hb w
    · intro hstays
      rw [if_neg hstays, hline]
      rfl
  · simp only [List.mem_cons, List.not_mem_nil, or_false] at h
    have hmode : o.mode = .memory .absolute := by
      rw [← hm, Opcode.mode_operation (documented_of_opcode ho)]
    rcases h with h | h
    · obtain ⟨p, hp⟩ := Operation.jump_of_name h
      rw [hp] at hm
      cases hm
      rw [hline, hp, hmode]
      rfl
    · rw [hline, Operation.call_of_name h, hmode]
      rfl
  · have hmode : o.mode = .memory .indirect := by
      rw [← hm, Opcode.mode_operation (documented_of_opcode ho)]
    obtain ⟨p, hp⟩ := Operation.jump_of_name h
    rw [hp] at hm
    cases hm
    rw [hline, hp, hmode]
    rfl

/-- A machine at a BNE in the last two bytes of the address space. It is taken, since Z is clear. -/
def atLastBranch : Cpu Ram :=
  .powerOn {} {} (.holding [(0xFFFC, 0xFE), (0xFFFD, 0xFF), (0xFFFE, 0xD0), (0xFFFF, 0xFB)])

theorem step_follows_line_atLastBranch :
    atLastBranch.due? = none ∧ atLastBranch.opcode? = some ⟨0xD0, .branch .bne, .relative, 2⟩ ∧
      atLastBranch.line.text = "BNE $FFFB" ∧ atLastBranch.step.2.regs.pc = 0xFFFB := by
  have hd : atLastBranch.due? = none := rfl
  have ho : atLastBranch.opcode? = some ⟨0xD0, .branch .bne, .relative, 2⟩ := rfl
  have ht : (⟨"BNE", Status.zero, false⟩ : BranchTest) ∈ BranchTest.all := by simp [BranchTest.all]
  have htext : atLastBranch.line.text = "BNE" ++ " $" ++ Hex.word 0xFFFB :=
    (text_line_eq_iff ho rfl 0xFFFB).mpr rfl
  obtain ⟨-, -, -, -, hbranch, -⟩ := step_follows_line hd ho
  have hpc := ((hbranch _ ht rfl).1 rfl 0xFFFB).mp htext
  exact ⟨hd, ho, htext.trans (by decide), hpc⟩

end Cpu

end Nmos6502
