import Nmos6502.Proofs.Faults
import Nmos6502.Proofs.Ram

/-!
# The two policies

A machine that passes over illegal bytes and one that halts at them are the same machine until the
first such byte. This module runs the two from the same state, for any number of steps, and shows
that nothing else tells them apart: as long as no step passes over a byte, both report the same and
stay equal but for the policy. The step that passes over the first one is the step at which the
other machine fails, in the same state, and the fault names the byte and its address.

## Where the policy is asked

A step asks the policy in one case only, `Cpu.AtIllegal`: nothing is due and the byte at the program
counter is no documented opcode. In any other case the step is the same under every policy, which is
`Cpu.step_withPolicy`. The rest is an induction on the number of steps, and its hypothesis is about
one of the two runs alone.

## A byte passed over

What passing over a byte does is written out in the step, and not through the opcode table. That it
does what NOP would do at the same address is `Cpu.skip_eq_nop`. It holds wherever the byte lies,
the last address included, and also when an IRQ waits behind the flag I.

## Main definitions

* `Cpu.afterSteps`, `Cpu.reported` — steps in a row, and what each reports
* `Cpu.withPolicy` — the machine under another policy
* `Cpu.AtIllegal` — the next step asks the policy

## Main results

* `Cpu.step_withPolicy`, `Cpu.afterSteps_withPolicy` — steps that do not ask
* `Cpu.skip_eq_nop`, `Cpu.step_at_nop_of_skipped` — a byte passed over
* `Cpu.agree_of_not_skipped`, `Cpu.halt_fails_of_skipped` — before the first such byte, and there
* `Cpu.policies_part_at_illegal_byte` — two runs under the two policies
-/

universe u

namespace Nmos6502

/-- The row of NOP. -/
def Opcode.nop : Opcode := ⟨0xEA, .implied .nop, .implicit, 2⟩

theorem Opcode.ofByte?_nop : ofByte? 0xEA = some nop := rfl

theorem Opcode.nop_mem_documented : nop ∈ documented := mem_documented_of_ofByte? ofByte?_nop

namespace Cpu

variable {β : Type u} [Bus β]

/-! ## Steps in a row -/

/-- The machine after `n` steps, whether they succeed or fail. -/
def afterSteps (c : Cpu β) : (n : Nat) → Cpu β
  | 0 => c
  | n + 1 => (c.afterSteps n).step.2

/-- What the step with number `n` reports. The first one has number 0. -/
def reported (c : Cpu β) (n : Nat) : Except Fault Step := (c.afterSteps n).step.1

/-! ## Steps that do not ask the policy -/

omit [Bus β] in
/-- The machine under another policy. -/
def withPolicy (c : Cpu β) (p : DecodePolicy) : Cpu β :=
  { c with config := { c.config with decodePolicy := p } }

/-- The next step asks the policy: nothing is due, and the byte at the program counter is no
documented opcode. -/
def AtIllegal (c : Cpu β) : Prop := c.due? = none ∧ c.opcode? = none

theorem execute_withPolicy (c : Cpu β) (p : DecodePolicy) (o : Operation) :
    (c.withPolicy p).execute o = (c.execute o).withPolicy p := by
  cases o with
  | stacked s => cases s <;> rfl
  | _ => rfl

theorem performed_withPolicy (c : Cpu β) (p : DecodePolicy) (o : Opcode) :
    (c.withPolicy p).performed o = ((c.performed o).1, (c.performed o).2.withPolicy p) := by
  have hcost : (c.withPolicy p).cost o = c.cost o := rfl
  rw [performed, performed, hcost]
  refine Prod.ext rfl ?_
  exact congrArg (charge · (c.cost o)) (execute_withPolicy c.trace p o.operation)

/-- **A step that does not ask the policy** is the same under every policy. -/
theorem step_withPolicy {c : Cpu β} (h : ¬ c.AtIllegal) (p : DecodePolicy) :
    (c.withPolicy p).step = (c.step.1, c.step.2.withPolicy p) := by
  cases hd : c.due? with
  | some due =>
    rw [step_of_due hd, step_of_due (c := c.withPolicy p) hd]
    rfl
  | none =>
    cases ho : c.opcode? with
    | some o =>
      rw [step_of_not_due hd, fetch_of_opcode ho, step_of_not_due (c := c.withPolicy p) hd,
        fetch_of_opcode (c := c.withPolicy p) ho]
      exact c.performed_withPolicy p o
    | none => exact absurd ⟨hd, ho⟩ h

/-! ## Steps that ask it -/

/-- Under the policy to skip, the steps that ask are those that pass over a byte. -/
theorem step_eq_skipped_iff_atIllegal {c : Cpu β} (hp : c.config.decodePolicy = .skip) (b : UInt8)
    (n : Nat) : c.step.1 = .ok (.skipped b n) ↔
      c.AtIllegal ∧ b = Bus.read c.bus c.regs.pc ∧ n = skipCycles := by
  rw [step_eq_skipped_iff]
  constructor
  · rintro ⟨⟨hd, ho, -⟩, hb⟩
    exact ⟨⟨hd, ho⟩, hb⟩
  · rintro ⟨⟨hd, ho⟩, hb⟩
    exact ⟨⟨hd, ho, hp⟩, hb⟩

/-- If no step of a machine that skips passes over a byte, none asks. -/
theorem not_atIllegal_of_not_skipped {c : Cpu β} (hp : c.config.decodePolicy = .skip)
    (h : ∀ b n, c.step.1 ≠ .ok (.skipped b n)) : ¬ c.AtIllegal := by
  intro hc
  exact h _ _ ((step_eq_skipped_iff_atIllegal hp _ _).mpr ⟨hc, rfl, rfl⟩)

/-- Under the policy to halt, the steps that ask fail. -/
theorem step_withPolicy_halt {c : Cpu β} (h : c.AtIllegal) :
    (c.withPolicy .halt).step.1 =
      .error (.illegalOpcode (Bus.read c.bus c.regs.pc) c.regs.pc) :=
  ((c.withPolicy .halt).step_eq_error_iff _).mpr ⟨⟨h.1, h.2, rfl⟩, rfl⟩

/-- **A byte passed over.** The step leaves what NOP at the program counter leaves, apart from the
count of illegal bytes and the journal. -/
theorem skip_eq_nop {c : Cpu β} {b : UInt8} {n : Nat} (h : c.step.1 = .ok (.skipped b n)) :
    (c.perform Opcode.nop).1 = .ok (.instruction 0xEA n) ∧
      c.step.2 = { (c.perform Opcode.nop).2 with
        decodeErrors := c.decodeErrors + 1
        journal := c.step.2.journal } := by
  obtain ⟨⟨hd, ho, hp⟩, -, rfl⟩ := (c.step_eq_skipped_iff b n).mp h
  rw [step_of_not_due hd, fetch_of_skip ho hp, c.perform_eq Opcode.nop_mem_documented]
  exact ⟨rfl, rfl⟩

/-- A machine at a NOP, with nothing due, executes it. -/
theorem step_of_nop {c : Cpu β} (hd : c.due? = none) (hb : Bus.read c.bus c.regs.pc = 0xEA) :
    c.step = c.perform Opcode.nop := by
  have ho : c.opcode? = some Opcode.nop := by rw [opcode?, hb, Opcode.ofByte?_nop]
  rw [step_of_not_due hd, fetch_of_opcode ho, c.perform_eq Opcode.nop_mem_documented]

/-- **NOP in the place of the byte.** On any bus that holds it there, the step leaves what passing
over the byte leaves, but for the count of illegal bytes. -/
theorem step_at_nop_of_skipped {c : Cpu β} {b : UInt8} {n : Nat}
    (h : c.step.1 = .ok (.skipped b n)) {bus : β} (hb : Bus.read bus c.regs.pc = 0xEA) :
    { c with bus }.step = (.ok (.instruction 0xEA n), { c.step.2 with
      bus
      decodeErrors := c.decodeErrors
      journal := { c with bus }.step.2.journal }) := by
  obtain ⟨⟨hd, -⟩, -, rfl⟩ := (c.step_eq_skipped_iff b n).mp h
  rw [step_of_nop (c := { c with bus }) hd hb, (skip_eq_nop h).2]
  rfl

/-! ## Two runs -/

/-- No number of steps changes the settings. -/
theorem config_afterSteps (c : Cpu β) (n : Nat) : (c.afterSteps n).config = c.config := by
  induction n with
  | zero => rfl
  | succ n ih => rw [afterSteps, config_step, ih]

theorem decodePolicy_afterSteps (c : Cpu β) (p : DecodePolicy) (n : Nat) :
    ((c.withPolicy p).afterSteps n).config.decodePolicy = p := by
  rw [config_afterSteps]
  rfl

/-- Steps that do not ask lead to the same machine under both policies. -/
theorem afterSteps_withPolicy {c : Cpu β} {p : DecodePolicy} {n : Nat}
    (h : ∀ k < n, ¬ ((c.withPolicy p).afterSteps k).AtIllegal) (q : DecodePolicy) :
    (c.withPolicy q).afterSteps n = ((c.withPolicy p).afterSteps n).withPolicy q := by
  induction n with
  | zero => rfl
  | succ n ih =>
    have hbefore := ih fun k hk => h k (Nat.lt_succ_of_lt hk)
    rw [afterSteps, hbefore, step_withPolicy (h n (Nat.lt_succ_self n)), afterSteps]

/-- As long as no step asks, both runs report the same. -/
theorem reported_withPolicy {c : Cpu β} {p : DecodePolicy} {n : Nat}
    (h : ∀ k ≤ n, ¬ ((c.withPolicy p).afterSteps k).AtIllegal) (q : DecodePolicy) :
    (c.withPolicy q).reported n = (c.withPolicy p).reported n := by
  rw [reported, afterSteps_withPolicy (fun k hk => h k (Nat.le_of_lt hk)) q,
    step_withPolicy (h n (Nat.le_refl n)), reported]

/-- If a step of a machine that skips passes over no byte, it does not ask. -/
theorem not_atIllegal_of_reported {c : Cpu β} {k : Nat}
    (h : ∀ b m, (c.withPolicy .skip).reported k ≠ .ok (.skipped b m)) :
    ¬ ((c.withPolicy .skip).afterSteps k).AtIllegal :=
  not_atIllegal_of_not_skipped (decodePolicy_afterSteps c .skip k) h

/-- **Before the first byte that is passed over**, both runs report the same, and the machines
differ in the policy alone. -/
theorem agree_of_not_skipped {c : Cpu β} {n : Nat}
    (h : ∀ k < n, ∀ b m, (c.withPolicy .skip).reported k ≠ .ok (.skipped b m)) :
    (∀ k < n, (c.withPolicy .halt).reported k = (c.withPolicy .skip).reported k) ∧
      (c.withPolicy .halt).afterSteps n =
        ((c.withPolicy .skip).afterSteps n).withPolicy .halt := by
  have hasks : ∀ k < n, ¬ ((c.withPolicy .skip).afterSteps k).AtIllegal := by
    intro k hk
    exact not_atIllegal_of_reported (h k hk)
  refine ⟨?_, afterSteps_withPolicy hasks .halt⟩
  intro k hk
  refine reported_withPolicy ?_ .halt
  intro j hj
  exact hasks j (Nat.lt_of_le_of_lt hj hk)

/-- **At the first byte that is passed over**, the machine that halts has not failed yet, and
fails. -/
theorem halt_fails_of_skipped {c : Cpu β} {k : Nat} {b : UInt8} {m : Nat}
    (h : ∀ j < k, ∀ b m, (c.withPolicy .skip).reported j ≠ .ok (.skipped b m))
    (hs : (c.withPolicy .skip).reported k = .ok (.skipped b m)) :
    (∀ j < k, ∀ f, (c.withPolicy .halt).reported j ≠ .error f) ∧
      (c.withPolicy .halt).afterSteps k =
        ((c.withPolicy .skip).afterSteps k).withPolicy .halt ∧
      (c.withPolicy .halt).reported k =
        .error (.illegalOpcode b ((c.withPolicy .halt).afterSteps k).regs.pc) := by
  obtain ⟨hsame, hbefore⟩ := agree_of_not_skipped h
  refine ⟨?_, hbefore, ?_⟩
  · intro j hj f hf
    rw [hsame j hj] at hf
    obtain ⟨s, hok⟩ := step_ok_of_skip (decodePolicy_afterSteps c .skip j)
    exact nomatch hf.symm.trans hok
  · obtain ⟨hask, rfl, -⟩ :=
      (step_eq_skipped_iff_atIllegal (decodePolicy_afterSteps c .skip k) b m).mp hs
    rw [reported, hbefore]
    exact step_withPolicy_halt hask

/-- **Two runs under the two policies.** For every machine, run once to skip and once to halt. Over
any number of steps of which none passes over a byte, both report the same and lead to machines that
differ in the policy alone. If the step with number `k` is the first that passes over a byte, then
the other machine has not failed before, is at that step in the same state, and fails there with the
same byte and the address where it lies. And whenever a step passes over a byte, it does what
executing NOP at that address does, and counts the byte: it leaves the same registers, bus, cycles
and requests. That is also what the step does on any bus that holds NOP in the place of the byte. -/
theorem policies_part_at_illegal_byte (c : Cpu β) :
    (∀ n, (∀ k < n, ∀ b m, (c.withPolicy .skip).reported k ≠ .ok (.skipped b m)) →
      (∀ k < n, (c.withPolicy .halt).reported k = (c.withPolicy .skip).reported k) ∧
        (c.withPolicy .halt).afterSteps n =
          ((c.withPolicy .skip).afterSteps n).withPolicy .halt) ∧
    (∀ k b m, (∀ j < k, ∀ b m, (c.withPolicy .skip).reported j ≠ .ok (.skipped b m)) →
      (c.withPolicy .skip).reported k = .ok (.skipped b m) →
        (∀ j < k, ∀ f, (c.withPolicy .halt).reported j ≠ .error f) ∧
        (c.withPolicy .halt).afterSteps k =
          ((c.withPolicy .skip).afterSteps k).withPolicy .halt ∧
        (c.withPolicy .halt).reported k =
          .error (.illegalOpcode b ((c.withPolicy .halt).afterSteps k).regs.pc)) ∧
    (∀ b m, c.step.1 = .ok (.skipped b m) →
      (c.perform Opcode.nop).1 = .ok (.instruction 0xEA m) ∧
      c.step.2 = { (c.perform Opcode.nop).2 with
        decodeErrors := c.decodeErrors + 1
        journal := c.step.2.journal } ∧
      ∀ bus : β, Bus.read bus c.regs.pc = 0xEA →
        { c with bus }.step = (.ok (.instruction 0xEA m), { c.step.2 with
          bus
          decodeErrors := c.decodeErrors
          journal := { c with bus }.step.2.journal })) := by
  refine ⟨?_, ?_, ?_⟩
  · intro n h
    exact agree_of_not_skipped h
  · intro k b m h hs
    exact halt_fails_of_skipped h hs
  · intro b m hs
    obtain ⟨hnop, hafter⟩ := skip_eq_nop hs
    refine ⟨hnop, hafter, ?_⟩
    intro bus hb
    exact step_at_nop_of_skipped hs hb

/-- A machine whose second byte is illegal and lies at the last address. An IRQ waits behind the
flag I. -/
def beforeLastByte : Cpu Ram :=
  raise (.powerOn {} {} (.holding
    [(0xFFFC, 0xFE), (0xFFFD, 0xFF), (0xFFFE, 0xEA), (0xFFFF, 0x02)])) .irq

theorem policies_part_at_illegal_byte_beforeLastByte :
    (beforeLastByte.withPolicy .halt).reported 0 = .ok (.instruction 0xEA 2) ∧
      (beforeLastByte.withPolicy .skip).reported 1 = .ok (.skipped 0x02 2) ∧
      (beforeLastByte.withPolicy .halt).reported 1 = .error (.illegalOpcode 0x02 0xFFFF) ∧
      ((beforeLastByte.withPolicy .skip).afterSteps 2).regs.pc = 0x0000 ∧
      ((beforeLastByte.withPolicy .skip).afterSteps 2).pending.controller =
        ⟨some (.hardware .irq), false⟩ := by
  have hfirst : (beforeLastByte.withPolicy .skip).reported 0 = .ok (.instruction 0xEA 2) := rfl
  have hsecond : (beforeLastByte.withPolicy .skip).reported 1 = .ok (.skipped 0x02 2) := rfl
  have hbefore : ∀ k < 1, ∀ b m,
      (beforeLastByte.withPolicy .skip).reported k ≠ .ok (.skipped b m) := by
    intro k hk b m
    obtain rfl : k = 0 := Nat.lt_one_iff.mp hk
    rw [hfirst]
    nofun
  obtain ⟨hsame, hpart, -⟩ := policies_part_at_illegal_byte beforeLastByte
  exact ⟨((hsame 1 hbefore).1 0 Nat.one_pos).trans hfirst, hsecond,
    (hpart 1 0x02 2 hbefore hsecond).2.2, rfl, rfl⟩

end Cpu

end Nmos6502
