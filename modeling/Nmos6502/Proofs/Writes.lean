import Nmos6502.Proofs.Service

/-!
# The writes of a step

What a step writes can be told before it is taken. A store writes one register, INC, DEC and the
shifts in memory write one byte back changed, PHA, PHP and JSR push, and serving an interrupt pushes
three bytes. Nothing else writes at all.

The addresses are those before the step. A store may hit its own opcode, a pointer that it went
through or the vector that is read next, and that changes nothing in what it writes.

## Two lists

`Cpu.stepWrites` lists the calls as the machine computes them, and the proofs about single
instructions use that form. `Cpu.foretold` says the same in numbers: where a slot of the stack is,
what a shift makes of a byte, and what a return address is, as sums and remainders. What the bus is
given in a step, by the record of a `Recorder`, is the first list, and in numbers the second.

## Main definitions

* `Cpu.operationWrites`, `Cpu.stepWrites` — the writes of an operation and of a step
* `Modifier.number` — the byte that INC, DEC or a shift leaves, in numbers
* `Cpu.instructionNumbers`, `Cpu.foretold` — the writes of a row of the table and of a step, in
  numbers

## Main results

* `Cpu.bus_execute`, `Cpu.bus_step`, `Cpu.calls_step` — they are the writes, and there are no others
* `Cpu.bus_step_exact` — the writes of a step, in numbers
-/

universe u

namespace Nmos6502

/-! ## The byte that is left -/

/-- The byte that INC, DEC, ASL, LSR, ROL or ROR leaves, from the carry flag and the byte before. -/
def Modifier.number (carry b : Nat) : Modifier → Nat
  | inc => (b + 1) % 256
  | dec => (b + 255) % 256
  | shift .asl => 2 * b % 256
  | shift .lsr => b / 2
  | shift .rol => (2 * b + carry) % 256
  | shift .ror => b / 2 + 128 * carry

/-- The carry flag is bit 0. -/
theorem Status.toNat_contains_carry (p : Status) :
    (p.contains carry).toNat = p.bits.toNat % 2 :=
  forall_byte (P := fun b => ((⟨b⟩ : Status).contains carry).toNat = b.toNat % 2)
    (by decide +kernel) p.bits

theorem Modifier.toNat_value (m : Modifier) (p : Status) (b : UInt8) :
    (m.value p b).toNat = m.number (p.bits.toNat % 2) b.toNat := by
  have hb := b.toNat_lt
  have hhalf : (b / 2).toNat = b.toNat / 2 := UInt8.toNat_div b 2
  rw [← Status.toNat_contains_carry]
  cases m with
  | inc => exact UInt8.toNat_add ..
  | dec =>
    show (b - 1).toNat = (b.toNat + 255) % 256
    rw [UInt8.toNat_sub]
    exact congrArg (· % 256) (Nat.add_comm ..)
  | shift s =>
    cases s with
    | asl =>
      show (b + b).toNat = 2 * b.toNat % 256
      rw [UInt8.toNat_add, Nat.two_mul]
    | lsr => exact hhalf
    | rol =>
      show (b + b + if p.contains Status.carry then 1 else 0).toNat = _
      rw [number, UInt8.toNat_add, UInt8.toNat_add]
      cases p.contains Status.carry with
      | false =>
        show ((b.toNat + b.toNat) % 256 + 0) % 256 = (2 * b.toNat + 0) % 256
        omega
      | true =>
        show ((b.toNat + b.toNat) % 256 + 1) % 256 = (2 * b.toNat + 1) % 256
        omega
    | ror =>
      show (b / 2 + if p.contains Status.carry then 0x80 else 0).toNat = _
      rw [number, UInt8.toNat_add, hhalf]
      cases p.contains Status.carry with
      | false =>
        show (b.toNat / 2 + 0) % 256 = b.toNat / 2 + 128 * 0
        omega
      | true =>
        show (b.toNat / 2 + 128) % 256 = b.toNat / 2 + 128 * 1
        omega

namespace Cpu

variable {β : Type u} [Bus β]

/-! ## The writes, told in advance -/

/-- The writes of an operation. A store writes a register where its mode points to, and an
instruction that changes a byte in memory writes the new byte where the old one was. -/
def operationWrites (c : Cpu β) (o : Operation) : List (UInt16 × UInt8) :=
  match o, c.effectiveAddress o.mode with
  | .write w _, .ok a => [(a, w.value c.regs)]
  | .modify m _, .ok a => [(a, m.value c.regs.p (Bus.read c.bus a))]
  | .call, _ =>
    [(c.stackAddress c.regs.s, highByte (c.regs.pc + 2)),
      (c.stackAddress (c.regs.s - 1), lowByte (c.regs.pc + 2))]
  | .stacked .pha, _ => [(c.stackAddress c.regs.s, c.regs.a)]
  | .stacked .php, _ => [(c.stackAddress c.regs.s, c.regs.p.pushed true)]
  | .stacked .brk, _ => c.serviceWrites .brk
  | _, _ => []

/-- The writes of the next step. A byte that is no documented opcode writes nothing, whether it
stops the machine or is passed over. -/
def stepWrites (c : Cpu β) : List (UInt16 × UInt8) :=
  match c.due?, c.opcode? with
  | some (i, _), _ => c.serviceWrites i
  | none, some o => c.operationWrites o.operation
  | none, none => []

theorem stepWrites_of_due {c : Cpu β} {i : Interrupt} {rest : Pending}
    (h : c.due? = some (i, rest)) : c.stepWrites = c.serviceWrites i := by
  rw [stepWrites, h]

theorem stepWrites_of_opcode {c : Cpu β} {o : Opcode} (h : c.due? = none)
    (ho : c.opcode? = some o) : c.stepWrites = c.operationWrites o.operation := by
  rw [stepWrites, h, ho]

theorem stepWrites_of_no_opcode {c : Cpu β} (h : c.due? = none) (ho : c.opcode? = none) :
    c.stepWrites = [] := by
  rw [stepWrites, h, ho]

/-! ## They are the writes -/

/-- The bus after an execution. -/
theorem bus_execute (c : Cpu β) (o : Operation) :
    (c.execute o).bus = Bus.writes c.bus (c.operationWrites o) := by
  cases o with
  | stacked s =>
    cases s with
    | brk => exact c.bus_serve_eq .brk
    | _ => rfl
  | _ => rfl

/-- **The bus after a step.** -/
theorem bus_step (c : Cpu β) : c.step.2.bus = Bus.writes c.bus c.stepWrites := by
  refine c.step_cases (fun i rest h => ?_) (fun o h ho => ?_) (fun h ho _ => ?_) (fun h ho _ => ?_)
  · rw [stepWrites_of_due h]
    exact bus_serve_eq { c with pending := rest } i
  · rw [stepWrites_of_opcode h ho, bus_performed]
    exact c.bus_execute o.operation
  · rw [stepWrites_of_no_opcode h ho]
    rfl
  · rw [stepWrites_of_no_opcode h ho]
    rfl

/-! ## And there are no others -/

/-- What a machine writes does not depend on whether it is recorded. -/
theorem stepWrites_recorded (c : Cpu β) : c.recorded.stepWrites = c.stepWrites := by
  have hwrites : ∀ o, c.recorded.operationWrites o = c.operationWrites o := by
    intro o
    simp only [operationWrites, effectiveAddress_recorded]
    rfl
  simp only [stepWrites, hwrites]
  rfl

/-- **The calls of a step** are the writes that were told in advance. -/
theorem calls_step (c : Cpu β) : c.recorded.step.2.bus.calls = c.stepWrites := by
  rw [bus_step, stepWrites_recorded, Recorder.writes_eq]
  rfl

/-! ## In numbers -/

/-- The writes of a mnemonic in a mode, in numbers. STA, STX and STY write their register to the
effective address, and INC, DEC, ASL, LSR, ROL and ROR write back what they make of the byte there.
PHA writes A to the slot at the stack pointer, PHP the status with bits 4 and 5, and JSR the two
bytes of PC + 2. -/
def instructionNumbers (c : Cpu β) (m : Mnemonic) (mode : Mode) : List (Nat × Nat) :=
  match m, c.effectiveAddress mode with
  | .write .sta, .ok a => [(a.toNat, c.regs.a.toNat)]
  | .write .stx, .ok a => [(a.toNat, c.regs.x.toNat)]
  | .write .sty, .ok a => [(a.toNat, c.regs.y.toNat)]
  | .modify m, .ok a => [(a.toNat, m.number (c.regs.p.bits.toNat % 2) (Bus.read c.bus a).toNat)]
  | .jsr, _ =>
    [(c.slotBelow 0, (c.regs.pc.toNat + 2) % 65536 / 256),
      (c.slotBelow 1, (c.regs.pc.toNat + 2) % 65536 % 256)]
  | .stacked .pha, _ => [(c.slotBelow 0, c.regs.a.toNat)]
  | .stacked .php, _ => [(c.slotBelow 0, c.regs.p.bits.toNat ||| 48)]
  | .stacked .brk, _ => c.serviceNumbers .brk
  | _, _ => []

/-- The writes of the next step, in numbers. -/
def foretold (c : Cpu β) : List (Nat × Nat) :=
  match c.due?, c.opcode? with
  | some (i, _), _ => c.serviceNumbers i
  | none, some o => c.instructionNumbers o.mnemonic o.mode
  | none, none => []

/-- The writes of an operation, in numbers. -/
theorem inNumbers_operationWrites (c : Cpu β) (o : Operation) :
    (c.operationWrites o).map inNumbers = c.instructionNumbers o.mnemonic o.mode := by
  cases o with
  | write w p => cases w <;> rfl
  | modify m p =>
    show [inNumbers (_, _)] = [(_, _)]
    rw [inNumbers, Modifier.toNat_value]
  | call =>
    have hback : (c.regs.pc + 2).toNat = (c.regs.pc.toNat + 2) % 65536 := UInt16.toNat_add ..
    have hword := c.inNumbers_pushWord (c.regs.pc + 2)
    rw [hback] at hword
    exact hword
  | stacked s =>
    cases s with
    | pha => exact congrArg (fun w => [w]) (c.inNumbers_push _)
    | php =>
      have hmarked : (c.regs.p.pushed true).toNat = c.regs.p.bits.toNat ||| 48 :=
        c.toNat_pushed .brk
      show [inNumbers (_, c.regs.p.pushed true)] = [(_, _)]
      rw [inNumbers_push, hmarked]
    | brk => exact c.inNumbers_serviceWrites .brk
    | pla | plp | rts | rti => rfl
  | read r p => rfl
  | shift s => rfl
  | branch b => rfl
  | jump p => rfl
  | implied i => rfl

theorem inNumbers_stepWrites (c : Cpu β) : c.stepWrites.map inNumbers = c.foretold := by
  rw [stepWrites, foretold]
  cases hd : c.due? with
  | some due => exact c.inNumbers_serviceWrites due.1
  | none =>
    cases ho : c.opcode? with
    | none => rfl
    | some o =>
      have hwrites := c.inNumbers_operationWrites o.operation
      rw [Opcode.mnemonic_operation (documented_of_opcode ho),
        Opcode.mode_operation (documented_of_opcode ho)] at hwrites
      exact hwrites

/-- **The writes of a step, and no others.** For every machine on every bus, the bus after a step is
the bus before it with some calls of `write` made in their order. They are the ones that a recorder
of the bus keeps, on which the machine takes the same step. In numbers, they are the ones that were
told in advance. -/
theorem bus_step_exact (c : Cpu β) :
    c.step.2.bus = Bus.writes c.bus c.recorded.step.2.bus.calls ∧
      c.recorded.step.2.bus.calls.map inNumbers = c.foretold ∧
      c.step = (c.recorded.step.1, c.recorded.step.2.through Recorder.bus) := by
  rw [calls_step]
  exact ⟨c.bus_step, c.inNumbers_stepWrites, c.step_recorded⟩

/-- A machine with the carry set at a ROR of the byte in front of it, and then a PHA. Its stack is
in page 2 and starts at slot 0. -/
def atRotation : Cpu Ram :=
  let c : Cpu Ram := .powerOn { stackPage := 0x02 } {} (.holding [
    (0xFFFD, 0x80), (0x7FFF, 0x43), (0x8000, 0x6E), (0x8001, 0xFF), (0x8002, 0x7F), (0x8003, 0x48)])
  { c with regs := { c.regs with a := 0x99, s := 0x00, p := c.regs.p.set Status.carry true } }

/-- ROR rotates the carry in, PHA pushes to the first slot of the page, and the NMI behind it goes
on at the last one. -/
theorem bus_step_exact_atRotation :
    atRotation.recorded.step.2.bus.calls.map inNumbers = [(0x7FFF, 0xA1)] ∧
      atRotation.step.2.recorded.step.2.bus.calls.map inNumbers = [(0x0200, 0x99)] ∧
      (atRotation.step.2.step.2.raise .nmi).recorded.step.2.bus.calls.map inNumbers =
        [(0x02FF, 0x80), (0x02FE, 0x04), (0x02FD, 0xA5)] :=
  ⟨(bus_step_exact atRotation).2.1, (bus_step_exact atRotation.step.2).2.1,
    (bus_step_exact (atRotation.step.2.step.2.raise .nmi)).2.1⟩

end Cpu

end Nmos6502
