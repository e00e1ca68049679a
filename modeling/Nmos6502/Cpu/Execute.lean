import Nmos6502.Cpu.Basic
import Nmos6502.Effect

/-!
# Executing an instruction

`Cpu.dispatch` executes a row of the opcode table. It goes by the mnemonic to a handler, and a
handler that works on memory first resolves the addressing mode of the row. `Cpu.effectiveAddress`
can refuse: implicit, accumulator and relative denote no address. Then the handler fails with the
fault of the resolver, and leaves the machine as it is. Nothing in a row rules that out, since it
pairs any mnemonic with any mode. That it happens for no row of the table is a theorem.

The resolver is a parameter of `Cpu.dispatchWith`, so the handlers are written once: `Cpu.dispatch`
resolves at the machine itself, and `Cpu.executeAt` resolves to an address that is given.

An `Operation` is a mnemonic in a mode that it has, and then nothing can fail. `Cpu.execute` is the
machine that the dispatch leaves for it.

## Main definitions

* `Cpu.serve` — push where to return and the status, and continue at a vector
* `Cpu.resolving`, `Cpu.withOperand` — the two ways in which a handler comes by its operand
* `Cpu.dispatchWith`, `Cpu.dispatch` — execute a mnemonic in a mode, and a row of the table
* `Cpu.execute`, `Cpu.executeAt` — the machine after an operation
* `Cpu.cost` — the cycles of a row

## Main results

* `Cpu.dispatch_eq` — a row of the table is executed as its operation, and does not fail
-/

universe u

namespace Nmos6502

namespace Cpu

variable {β : Type u} [Bus β]

/-! ## Serving an interrupt -/

/-- The address to which RTI returns: PC after an IRQ or an NMI, and PC + 2 after BRK, which leaves
out the byte behind it. -/
@[inline] def returnAddress (c : Cpu β) : Interrupt → UInt16
  | .hardware _ => c.regs.pc
  | .brk => c.regs.pc + 2

/-- The vector of an interrupt. IRQ and BRK share one. -/
@[inline] def serviceVector : Interrupt → HardwareVector
  | .hardware .nmi => .nmi
  | .hardware .irq | .brk => .irq

/-- Serve an interrupt: push the return address and the status, set I, and continue at the word that
the vector then holds. The pushed status has the break marker for BRK alone. -/
@[inline] def serve (c : Cpu β) (i : Interrupt) : Cpu β :=
  let back := c.returnAddress i
  let c := (c.pushWord back).push (c.regs.p.pushed (i == .brk))
  let vector := c.config.vector (serviceVector i)
  let pc := Bus.readWord c.bus vector
  { c with
    regs := { c.regs with
      p := c.regs.p.set Status.interruptDisable true
      pc := pc } }.record (.serviced i back vector pc)

/-! ## The handlers

`n` is the length of the instruction. -/

/-- Take a byte that was read into the registers: LDA and its like. -/
@[specialize] def readInto (c : Cpu β) (r : Reader) (b : UInt8) (n : Nat) : Cpu β :=
  { c with regs := (r.apply c.regs b).advance n }

/-- Write a register: STA, STX, STY. -/
@[specialize] def storeAt (c : Cpu β) (w : Writer) (a : UInt16) (n : Nat) : Cpu β :=
  { c with
    bus := Bus.write c.bus a (w.value c.regs)
    regs := c.regs.advance n }

/-- Read a byte and write it back changed: INC, DEC, and ASL and its like in memory. -/
@[specialize] def modifyAt (c : Cpu β) (m : Modifier) (a : UInt16) (n : Nat) : Cpu β :=
  let b := Bus.read c.bus a
  { c with
    bus := Bus.write c.bus a (m.value c.regs.p b)
    regs := { c.regs with p := m.status c.regs.p b }.advance n }

/-- Shift the accumulator: ASL and its like on A. -/
@[specialize] def shiftAccumulator (c : Cpu β) (s : Shift) (n : Nat) : Cpu β :=
  { c with regs := (s.apply c.regs).advance n }

/-- The address that a branch goes to when it is taken: from the address of the next instruction, by
the displacement behind the opcode. -/
@[inline] def branchTarget (c : Cpu β) (next : UInt16) : UInt16 :=
  displaced next (Bus.read c.bus (c.regs.pc + 1))

/-- Branch, or go on behind the branch: BCC and its like. -/
@[specialize] def branchOn (c : Cpu β) (b : Branch) (n : Nat) : Cpu β :=
  let next := c.regs.pc + UInt16.ofNat n
  { c with regs := { c.regs with pc := if b.taken c.regs.p then c.branchTarget next else next } }

/-- Continue at an address: JMP. -/
@[inline] def jumpTo (c : Cpu β) (a : UInt16) : Cpu β := { c with regs := { c.regs with pc := a } }

/-- Push the address of the last byte of the instruction and continue at an address: JSR. -/
@[specialize] def callTo (c : Cpu β) (a : UInt16) : Cpu β := (c.pushWord (c.regs.pc + 2)).jumpTo a

/-- Use registers alone: TAX, INX, CLC, NOP and their like. -/
@[specialize] def applyImplied (c : Cpu β) (i : Implied) (n : Nat) : Cpu β :=
  { c with regs := (i.apply c.regs).advance n }

/-- Push or pull. RTI goes on at the address that it pulls, and RTS behind it. -/
@[specialize] def executeStacked (c : Cpu β) (s : Stacked) (n : Nat) : Cpu β :=
  match s with
  | .pha =>
    let c := c.push c.regs.a
    { c with regs := c.regs.advance n }
  | .php =>
    let c := c.push (c.regs.p.pushed true)
    { c with regs := c.regs.advance n }
  | .pla =>
    let (b, c) := c.pull
    { c with regs := (c.regs.loadA b).advance n }
  | .plp =>
    let (b, c) := c.pull
    { c with regs := { c.regs with p := Status.ofByte b }.advance n }
  | .rts =>
    let (w, c) := c.pullWord
    { c with regs := { c.regs with pc := w + 1 } }
  | .rti =>
    let (b, c) := c.pull
    let (w, c) := c.pullWord
    { c with regs := { c.regs with p := Status.ofByte b, pc := w } }
  | .brk => c.serve .brk

/-! ## Dispatch -/

section Dispatch

variable (resolve : Mode → Except Fault UInt16) (c : Cpu β) (mode : Mode)

/-- Resolve a mode and hand the address on, or fail where the resolver fails. -/
@[inline] def resolving (handler : UInt16 → Cpu β) : Except Fault Unit × Cpu β :=
  match resolve mode with
  | .ok a => (.ok (), handler a)
  | .error f => (.error f, c)

/-- Hand on the operand byte: the accumulator, or the byte at the address of the mode. -/
@[inline] def withOperand (handler : UInt8 → Cpu β) : Except Fault Unit × Cpu β :=
  match mode with
  | .accumulator => (.ok (), handler c.regs.a)
  | mode => c.resolving resolve mode fun a => handler (Bus.read c.bus a)

/-- Execute a mnemonic in a mode, which need not have a meaning. -/
@[inline] def dispatchWith (m : Mnemonic) : Except Fault Unit × Cpu β :=
  let n := 1 + mode.operandBytes
  match m with
  | .read r => c.withOperand resolve mode fun b => c.readInto r b n
  | .write w => c.resolving resolve mode fun a => c.storeAt w a n
  | .modify m =>
    match mode with
    | .accumulator =>
      match m with
      | .shift s => (.ok (), c.shiftAccumulator s n)
      | m => c.resolving resolve .accumulator fun a => c.modifyAt m a n
    | mode => c.resolving resolve mode fun a => c.modifyAt m a n
  | .branch b => (.ok (), c.branchOn b n)
  | .jmp => c.resolving resolve mode c.jumpTo
  | .jsr => c.resolving resolve mode c.callTo
  | .implied i => (.ok (), c.applyImplied i n)
  | .stacked s => (.ok (), c.executeStacked s n)

end Dispatch

/-- Execute a row of the table at the program counter. -/
@[inline] def dispatch (c : Cpu β) (o : Opcode) : Except Fault Unit × Cpu β :=
  c.dispatchWith c.effectiveAddress o.mode o.mnemonic

/-- The machine after an operation whose operand is at a given address. -/
def executeAt (c : Cpu β) (a : UInt16) (o : Operation) : Cpu β :=
  (c.dispatchWith (fun _ => .ok a) o.mode o.mnemonic).2

/-- The machine after an operation, which is the one at the program counter. -/
def execute (c : Cpu β) (o : Operation) : Cpu β :=
  (c.dispatchWith c.effectiveAddress o.mode o.mnemonic).2

/-! ## Operations

Each is executed by one handler. -/

section Handlers

variable (c : Cpu β)

theorem execute_read (r : Reader) (p : Place) :
    c.execute (.read r p) =
      c.readInto r (Bus.read c.bus (c.address p)) (1 + p.operandBytes) := rfl

theorem execute_write (w : Writer) (p : Place) :
    c.execute (.write w p) = c.storeAt w (c.address p) (1 + p.operandBytes) := rfl

theorem execute_modify (m : Modifier) (p : Place) :
    c.execute (.modify m p) = c.modifyAt m (c.address p) (1 + p.operandBytes) := rfl

theorem execute_shift (s : Shift) : c.execute (.shift s) = c.shiftAccumulator s 1 := rfl

theorem execute_branch (b : Branch) : c.execute (.branch b) = c.branchOn b 2 := rfl

theorem execute_jump (p : Place) : c.execute (.jump p) = c.jumpTo (c.address p) := rfl

theorem execute_call : c.execute .call = c.callTo (c.address .absolute) := rfl

theorem execute_implied (i : Implied) : c.execute (.implied i) = c.applyImplied i 1 := rfl

theorem execute_stacked (s : Stacked) : c.execute (.stacked s) = c.executeStacked s 1 := rfl

end Handlers

/-- An operation with an operand in memory is executed at the address that its place denotes. -/
theorem execute_eq_executeAt (c : Cpu β) {o : Operation} {p : Place} (hm : o.mode = .memory p) :
    c.execute o = c.executeAt (c.address p) o := by
  cases o with
  | read | write | modify | jump | call =>
    cases hm
    rfl
  | shift | branch | implied | stacked => cases hm

/-- **A row of the table is executed as its operation**, and does not fail. -/
theorem dispatch_eq (c : Cpu β) {o : Opcode} (h : o ∈ Opcode.documented) :
    c.dispatch o = (.ok (), c.execute o.operation) := by
  have hok : ∀ p : Operation, c.dispatchWith c.effectiveAddress p.mode p.mnemonic =
      (.ok (), c.execute p) := by
    intro p
    cases p <;> rfl
  rw [dispatch, ← Opcode.mode_operation h, ← Opcode.mnemonic_operation h]
  exact hok o.operation

/-! ## Cycles -/

/-- The cycles of the row at the program counter. A taken branch takes one more, and another one if
it leaves the page of the next instruction. -/
@[inline] def cost (c : Cpu β) (o : Opcode) : Nat :=
  match o.mnemonic with
  | .branch b =>
    let next := c.regs.pc + UInt16.ofNat o.size
    if b.taken c.regs.p then
      if samePage next (c.branchTarget next) then o.cycles + 1 else o.cycles + 2
    else o.cycles
  | _ => o.cycles

theorem le_cost (c : Cpu β) (o : Opcode) : o.cycles ≤ c.cost o := by
  rw [cost]
  dsimp only
  repeat' split
  all_goals omega

end Cpu

end Nmos6502
