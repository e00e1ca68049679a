import Nmos6502.Proofs.Costs
import Nmos6502.Proofs.Overflow

/-!
# A comparison is a subtraction

A program compares two bytes in order to branch on how they are ordered. CMP, CPX and CPY are told
as a subtraction that keeps only its flags, but the machine does not subtract: it asks whether one
byte is below the other, and takes a difference modulo 256 for the other two flags. Neither looks at
the carry or at the mode. SBC does look at both, and so it leaves the same flags in binary mode and
with the carry set. This module ties the two together, and then to the branches.

## What a branch sees

Behind a comparison the carry says that the register is not below the operand, and zero that they
are equal. So each of BCC, BCS, BEQ and BNE asks for one relation between two unsigned numbers. The
branch reads its flag when it is executed, from whatever machine the comparison left. Nothing is
assumed of that machine but that the branch is executed next.

## Main definitions

* `Reader.compared?` — the register that a comparison looks at
* `Cpu.Compares` — a machine that is about to compare
* `Branch.relations` — the relation that a branch stands for

## Main results

* `carry_subtract_true`, `value_subtract_true` — a subtraction without a borrow
* `Cpu.Compares.step` — a comparison
* `Cpu.step_branch` — a branch, and whether it is taken
* `Cpu.comparison_is_subtraction` — the flags of a comparison and the branches on them
-/

universe u v

namespace Nmos6502

/-! ## A subtraction without a borrow -/

theorem carry_subtract_true (x y : UInt8) :
    (subtract false x y true).carry = decide (y ≤ x) := by
  have hcarry := carry_subtract false x y true
  rw [← Bool.coe_iff_coe, hcarry, decide_eq_true_iff, UInt8.le_iff_toNat_le]
  show 0 ≤ (x.toNat : Int) - y.toNat - 0 ↔ _
  omega

theorem value_subtract_true (x y : UInt8) : (subtract false x y true).value = x - y := by
  have hx := x.toNat_lt
  have hy := y.toNat_lt
  have hvalue : ((subtract false x y true).value.toNat : Int) = (x.toNat - y.toNat - 0) % 256 :=
    toNat_ofInt _
  refine UInt8.toNat_inj.mp ?_
  rw [UInt8.toNat_sub]
  omega

/-! ## The flags of a comparison -/

/-- The register that CMP, CPX or CPY looks at. -/
def Reader.compared? (r : Registers) : Reader → Option UInt8
  | cmp => some r.a
  | cpx => some r.x
  | cpy => some r.y
  | _ => none

theorem Reader.apply_eq_compare {rd : Reader} {r : Registers} {x : UInt8}
    (h : rd.compared? r = some x) (y : UInt8) : rd.apply r y = r.compare x y := by
  cases rd with
  | cmp | cpx | cpy =>
    cases h
    rfl
  | _ => cases h

namespace Registers

variable (r : Registers) (x y : UInt8)

theorem carry_compare : (r.compare x y).p.contains Status.carry = decide (y ≤ x) := by
  show ((r.p.set Status.carry (y ≤ x)).setZN (x - y)).contains Status.carry = _
  rw [Status.contains_setZN _ (by decide) (by decide) (by decide),
    Status.contains_set _ (by decide) (by decide), if_pos rfl]

theorem describes_compare : (r.compare x y).p.Describes (x - y) := Status.describes_setZN _ _

theorem zero_compare : (r.compare x y).p.contains Status.zero = decide (x = y) := by
  have hdifference : x - y = 0 ↔ x = y := by grind
  rw [← Bool.coe_iff_coe, (r.describes_compare x y).1, decide_eq_true_iff, hdifference]

/-- **A comparison leaves the flags of a subtraction** that borrows nothing before it starts. -/
theorem compare_eq_take (r' : Registers) :
    ∀ mask ∈ [Status.carry, Status.zero, Status.negative],
      (r.compare x y).p.contains mask =
        (r'.take (subtract false x y true)).p.contains mask := by
  have hdescribes := r.describes_compare x y
  have hdescribes' : (r'.take (subtract false x y true)).p.Describes
      (subtract false x y true).value := Status.describes_setZN _ _
  rw [value_subtract_true] at hdescribes'
  have hcarry : (r.compare x y).p.contains Status.carry =
      (r'.take (subtract false x y true)).p.contains Status.carry := by
    rw [r.carry_compare, r'.carry_take, carry_subtract_true]
  exact List.forall_mem_cons.mpr ⟨hcarry, hdescribes.agree hdescribes'⟩

end Registers

namespace Cpu

variable {β : Type u} [Bus β] {γ : Type v} [Bus γ]

/-! ## A comparison -/

/-- The machine is about to compare a register that holds `x` with the operand `y`, in whatever mode
of address: nothing is to be served before it. -/
structure Compares (x y : UInt8) (c : Cpu β) : Prop where
  due : c.due? = none
  opcode : ∃ o r p, c.opcode? = some o ∧ o.operation = .read r p ∧
    r.compared? c.regs = some x ∧ Bus.read c.bus (c.address p) = y

namespace Compares

variable {x y : UInt8} {c : Cpu β}

/-- **A comparison** succeeds, and changes nothing but the status and the program counter. -/
theorem step (h : c.Compares x y) :
    (∃ s, c.step.1 = .ok s) ∧
      (∃ n, c.step.2.regs = (c.regs.compare x y).advance n) ∧ c.step.2.bus = c.bus := by
  obtain ⟨o, r, p, ho, hop, hx, hy⟩ := h.opcode
  obtain ⟨hreport, hregs⟩ := step_of_opcode h.due ho
  refine ⟨⟨_, hreport⟩, ⟨o.operation.size, ?_⟩, ?_⟩
  · rw [hregs, ← Reader.apply_eq_compare hx, ← hy, hop]
    rfl
  · rw [bus_step, stepWrites_of_opcode h.due ho, hop]
    rfl

theorem status_step (h : c.Compares x y) : c.step.2.regs.p = (c.regs.compare x y).p := by
  obtain ⟨-, ⟨n, hregs⟩, -⟩ := h.step
  rw [hregs]
  rfl

/-- The flags that no comparison changes. -/
theorem contains_step (h : c.Compares x y) {mask : UInt8} (hm : mask ∈ Status.flags)
    (hnot : mask ∉ [Status.negative, Status.zero, Status.carry]) :
    c.step.2.regs.p.contains mask = c.regs.p.contains mask := by
  rw [h.status_step]
  exact (c.regs.keeps_compare y x).p mask hm hnot

end Compares

/-! ## A branch -/

/-- **A branch** is taken if its flag has the value that it waits for, and then it takes longer. -/
theorem step_branch {d : Cpu β} {o : Opcode} {b : Branch} (hd : d.due? = none)
    (ho : d.opcode? = some o) (hb : o.operation = .branch b) :
    ∃ n, d.step.1 = .ok (.instruction o.byte n) ∧
      (2 < n ↔ d.regs.p.contains b.flag = b.wanted) ∧
      d.step.2.regs.pc =
        if d.regs.p.contains b.flag = b.wanted then d.branchTarget (d.regs.pc + 2)
        else d.regs.pc + 2 := by
  obtain ⟨hreport, hregs⟩ := step_of_opcode hd ho
  have hbrk : o.mnemonic ≠ .stacked .brk := by
    rw [← Opcode.mnemonic_operation (documented_of_opcode ho), hb]
    nofun
  rw [report, if_neg hbrk] at hreport
  refine ⟨d.cost o, hreport, ?_, ?_⟩
  · rw [cost_of_branch ho hb]
    by_cases htaken : d.regs.p.contains b.flag = b.wanted
    · rw [if_pos htaken]
      split <;> simp [htaken]
    · simp [htaken]
  · rw [hregs, hb]
    exact d.pc_execute_branch b

end Cpu

/-! ## Branches on an order -/

/-- The branches on the order of two numbers, with the relation that each stands for. -/
def Branch.relations : List (Branch × (Nat → Nat → Prop)) :=
  [(.bcc, (· < ·)), (.bcs, (· ≥ ·)), (.beq, (· = ·)), (.bne, (· ≠ ·))]

/-- Behind a comparison the flag of a branch has the value that it waits for exactly if its relation
holds. -/
theorem Registers.wanted_compare_iff (r : Registers) (x y : UInt8)
    {t : Branch × (Nat → Nat → Prop)} (ht : t ∈ Branch.relations) :
    (r.compare x y).p.contains t.1.flag = t.1.wanted ↔ t.2 x.toNat y.toNat := by
  have hbelow : y ≤ x ↔ y.toNat ≤ x.toNat := UInt8.le_iff_toNat_le
  simp only [Branch.relations, List.mem_cons, List.not_mem_nil, or_false] at ht
  rcases ht with rfl | rfl | rfl | rfl
  · show (r.compare x y).p.contains Status.carry = false ↔ x.toNat < y.toNat
    rw [carry_compare, decide_eq_false_iff_not, hbelow, Nat.not_le]
  · show (r.compare x y).p.contains Status.carry = true ↔ x.toNat ≥ y.toNat
    rw [carry_compare, decide_eq_true_iff, hbelow]
  · show (r.compare x y).p.contains Status.zero = true ↔ x.toNat = y.toNat
    rw [zero_compare, decide_eq_true_iff, UInt8.toNat_inj]
  · show (r.compare x y).p.contains Status.zero = false ↔ x.toNat ≠ y.toNat
    rw [zero_compare, decide_eq_false_iff_not, Ne, UInt8.toNat_inj]

namespace Cpu

variable {β : Type u} [Bus β] {γ : Type v} [Bus γ]

/-- A machine that is about to execute SBC with `x` and `y` in binary mode, with the carry set. -/
def subtracting (x y : UInt8) : Cpu Ram where
  regs := ⟨x, 0, 0, ⟨0x21⟩, 0xFD, 0⟩
  bus := .holding [(0, 0xE9), (1, y)]

theorem subtracting_operates (x y : UInt8) :
    (subtracting x y).Operates .sbc false true x y := by
  have hmode : (⟨0x21⟩ : Status).contains Status.decimal = false := rfl
  have hcarry : (⟨0x21⟩ : Status).contains Status.carry = true := rfl
  exact ⟨rfl, ⟨_, .immediate, rfl, rfl, rfl⟩, rfl, hmode, hcarry⟩

/-- **A comparison is a subtraction**, and branches follow it. Take any machine that is about to
compare a register that holds `x` with the operand `y`, in whatever mode of address and on whatever
bus. Mode and carry may be anything. The step succeeds, and leaves in carry, zero and negative what
SBC leaves there on every machine that subtracts `y` from an accumulator `x` in binary mode with the
carry set; and for any two bytes there is such a machine. The other flags, all registers but the
program counter, and the bus stay as they are. If the next step executes BCC, BCS, BEQ or BNE, the
branch is taken, and takes longer than two cycles, exactly if its relation holds of the two bytes as
unsigned numbers. -/
theorem comparison_is_subtraction {c : Cpu β} {x y : UInt8} (h : c.Compares x y) :
    (∃ s, c.step.1 = .ok s) ∧
    (∀ d : Cpu γ, d.Operates .sbc false true x y →
      ∀ mask ∈ [Status.carry, Status.zero, Status.negative],
        c.step.2.regs.p.contains mask = d.step.2.regs.p.contains mask) ∧
    (subtracting x y).Operates .sbc false true x y ∧
    (∀ mask ∈ [Status.overflow, Status.decimal, Status.interruptDisable],
      c.step.2.regs.p.contains mask = c.regs.p.contains mask) ∧
    c.step.2.regs = { c.regs with p := c.step.2.regs.p, pc := c.step.2.regs.pc } ∧
    c.step.2.bus = c.bus ∧
    ∀ o, c.step.2.due? = none → c.step.2.opcode? = some o →
      ∀ t ∈ Branch.relations, o.operation = .branch t.1 →
        ∃ n, c.step.2.step.1 = .ok (.instruction o.byte n) ∧
          (2 < n ↔ t.2 x.toNat y.toNat) ∧
          (t.2 x.toNat y.toNat →
            c.step.2.step.2.regs.pc = c.step.2.branchTarget (c.step.2.regs.pc + 2)) ∧
          (¬ t.2 x.toNat y.toNat → c.step.2.step.2.regs.pc = c.step.2.regs.pc + 2) := by
  obtain ⟨hok, ⟨n, hregs⟩, hbus⟩ := h.step
  refine ⟨hok, ?_, subtracting_operates x y, ?_, ?_, hbus, ?_⟩
  · intro d hd mask hmask
    rw [h.status_step, hd.step_status hd.apply_sbc]
    exact c.regs.compare_eq_take x y d.regs mask hmask
  · simp only [List.forall_mem_cons, List.not_mem_nil, false_implies, implies_true, and_true]
    exact ⟨h.contains_step (by decide) (by decide), h.contains_step (by decide) (by decide),
      h.contains_step (by decide) (by decide)⟩
  · rw [hregs]
    rfl
  · intro o hd ho t ht hb
    obtain ⟨n, hreport, htaken, hpc⟩ := step_branch hd ho hb
    rw [h.status_step, c.regs.wanted_compare_iff x y ht] at htaken
    rw [h.status_step] at hpc
    refine ⟨n, hreport, htaken, ?_, ?_⟩
    · intro hholds
      rw [hpc, if_pos ((c.regs.wanted_compare_iff x y ht).mpr hholds)]
    · intro hfails
      rw [hpc, if_neg (mt (c.regs.wanted_compare_iff x y ht).mp hfails)]

/-- A machine in decimal mode, with the carry clear, that is about to compare an index register that
holds 16 with 144. A branch follows that goes back by two bytes. -/
def atComparison : Cpu Ram :=
  (powerOn {} {} (.holding [(0, 0xF8), (1, 0xA2), (2, 0x10), (3, 0xE0), (4, 0x90), (5, 0x90),
    (6, 0xFE)])).step.2.step.2

/-- As a signed byte 144 is negative. The branch takes it as unsigned and is taken. -/
theorem comparison_is_subtraction_atComparison :
    atComparison.Compares 0x10 0x90 ∧
      atComparison.step.2.regs.p.contains Status.carry = false ∧
      atComparison.step.2.regs.p.contains Status.decimal = true ∧
      atComparison.step.2.step.2.regs.pc = 5 := by
  have h : atComparison.Compares 0x10 0x90 := ⟨rfl, ⟨_, .cpx, .immediate, rfl, rfl, rfl, rfl⟩⟩
  obtain ⟨-, hflags, hd, hother, -, -, hbranch⟩ := comparison_is_subtraction (γ := Ram) h
  obtain ⟨n, -, -, htaken, -⟩ := hbranch ⟨0x90, .branch .bcc, .relative, 2⟩ rfl rfl
    (.bcc, (· < ·)) List.mem_cons_self rfl
  refine ⟨h, ?_, ?_, ?_⟩
  · rw [hflags _ hd Status.carry (by decide)]
    rfl
  · rw [hother Status.decimal (by decide)]
    rfl
  · rw [htaken (by decide)]
    rfl

end Cpu

end Nmos6502
