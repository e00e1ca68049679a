import Nmos6502.Config
import Nmos6502.Fault
import Nmos6502.Journal
import Nmos6502.Registers

/-!
# The machine

A `Cpu` is a processor on a bus: its registers, what it has counted, what is waiting for service,
its settings, its journal and the bus itself. It is a value, and every operation gives the machine
that comes after. Nothing here is specific to a bus.

## Main definitions

* `Cpu` — the machine
* `Cpu.address`, `Cpu.effectiveAddress` — the address that a mode denotes at the program counter
* `Cpu.push`, `Cpu.pull`, `Cpu.pushWord`, `Cpu.pullWord` — the stack
* `Cpu.reset`, `Cpu.powerOn` — how a machine starts
* `Cpu.raise` — an IRQ or an NMI arrives
-/

universe u

namespace Nmos6502

/-- A processor on a bus. -/
structure Cpu (β : Type u) where
  regs : Registers
  /-- Cycles since the counter was cleared, modulo `2 ^ 64`. -/
  cycles : UInt64 := 0
  /-- Cycles by which the last run went over its budget. -/
  carry : Nat := 0
  /-- Illegal bytes met, modulo `2 ^ 64`. -/
  decodeErrors : UInt64 := 0
  /-- Requests that wait for service. -/
  pending : Pending := .idle
  config : Config := {}
  journal : Journal := {}
  bus : β

namespace Cpu

variable {β : Type u} [Bus β]

/-- Enter an event into the journal. -/
@[inline] def record (c : Cpu β) (e : Event) : Cpu β := { c with journal := c.journal.record e }

/-! ## Addresses -/

/-- The address that a place denotes for the instruction at the program counter. Indexing in page 0
stays there, and a pointer is read within one page. -/
@[specialize] def address (c : Cpu β) (p : Place) : UInt16 :=
  let operand := c.regs.pc + 1
  match p with
  | .immediate => operand
  | .zeroPage => (Bus.read c.bus operand).toUInt16
  | .zeroPageX => (Bus.read c.bus operand + c.regs.x).toUInt16
  | .zeroPageY => (Bus.read c.bus operand + c.regs.y).toUInt16
  | .absolute => Bus.readWord c.bus operand
  | .absoluteX => Bus.readWord c.bus operand + c.regs.x.toUInt16
  | .absoluteY => Bus.readWord c.bus operand + c.regs.y.toUInt16
  | .indirect => Bus.readWordInPage c.bus (Bus.readWord c.bus operand)
  | .indirectX => Bus.readWordInPage c.bus (Bus.read c.bus operand + c.regs.x).toUInt16
  | .indirectY =>
    Bus.readWordInPage c.bus (Bus.read c.bus operand).toUInt16 + c.regs.y.toUInt16

/-- The address that a mode denotes, if it denotes one. -/
def effectiveAddress (c : Cpu β) : Mode → Except Fault UInt16
  | .memory p => .ok (c.address p)
  | m => .error (.unresolvable m)

/-! ## The stack -/

/-- The address of a stack slot. -/
@[inline] def stackAddress (c : Cpu β) (slot : UInt8) : UInt16 := word slot c.config.stackPage

/-- Push a byte: write at the stack pointer, then move it down. -/
@[inline] def push (c : Cpu β) (b : UInt8) : Cpu β :=
  { c with
    bus := Bus.write c.bus (c.stackAddress c.regs.s) b
    regs := { c.regs with s := c.regs.s - 1 } }

/-- Pull a byte: move the stack pointer up, then read. -/
@[inline] def pull (c : Cpu β) : UInt8 × Cpu β :=
  let s := c.regs.s + 1
  (Bus.read c.bus (c.stackAddress s), { c with regs := { c.regs with s := s } })

/-- Push a word, high byte first, so that it lies low byte first in memory. -/
@[inline] def pushWord (c : Cpu β) (w : UInt16) : Cpu β := (c.push (highByte w)).push (lowByte w)

/-- Pull a word, low byte first. -/
@[inline] def pullWord (c : Cpu β) : UInt16 × Cpu β :=
  let (lo, c) := c.pull
  let (hi, c) := c.pull
  (word lo hi, c)

/-! ## Starting -/

/-- The stack pointer after a reset. -/
def resetStackPointer : UInt8 := 0xFD

/-- Reset: continue at the reset vector, with the stack pointer and the flag I set and nothing
waiting. All else stays as it is. -/
def reset (c : Cpu β) : Cpu β :=
  let pc := Bus.readWord c.bus c.config.resetVector
  { c with
    regs := { c.regs with
      pc := pc
      s := resetStackPointer
      p := c.regs.p.set Status.interruptDisable true }
    pending := c.pending.clear }.record (.reset pc)

/-- A machine just switched on: registers and counters are zero, and then it is reset. -/
def powerOn (config : Config) (journal : Journal) (bus : β) : Cpu β :=
  reset { regs := ⟨0, 0, 0, Status.initial, 0, 0⟩, config, journal, bus }

/-! ## Requests -/

/-- An IRQ or an NMI arrives. -/
def raise (c : Cpu β) (r : Request) : Cpu β :=
  let c' := { c with pending := c.pending.raise r }
  match c.pending.controller.collision? (.hardware r) with
  | some collision => c'.record (.collision collision)
  | none => c'

end Cpu

end Nmos6502
