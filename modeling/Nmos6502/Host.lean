import Nmos6502.Cpu.Load
import Nmos6502.Cpu.Step

/-!
# A machine in a host

A host that embeds a machine works with counts of 32 bits and takes failures as text. A `Host` is a
machine on a memory seen in that way. It adds nothing to what the machine does: it chooses the
policy when the machine is built, gives a page of memory at once, and lists lines with their bytes.

Counts that do not fit are cut to their low 32 bits.

## Main definitions

* `Host`, `Host.build`
* `Host.load`, `Host.step`, `Host.run`
* `Host.page`, `Host.list`
-/

namespace Nmos6502

/-- A machine on a memory, as a host sees it. -/
structure Host where
  cpu : Cpu Memory

/-- A line with the bytes it stands for. -/
structure ListedLine where
  address : UInt16
  bytes : List UInt8
  text : String
  deriving DecidableEq, Repr

namespace Host

/-- A failure as its text. -/
def failing {α : Type} : Except Fault α → Except String α
  | .error f => .error f.message
  | .ok x => .ok x

/-- A machine with `size` bytes of memory. It passes over illegal bytes if `skip`, and fails at them
otherwise. -/
def build (size : UInt32) (skip : Bool) : Except String Host :=
  match Cpu.withMemorySize size.toNat { decodePolicy := if skip then .skip else .halt } {} with
  | .error e => .error e.message
  | .ok cpu => .ok ⟨cpu⟩

/-- Load a program and reset. Without an offset it goes where programs usually go. -/
def load (h : Host) (image : List UInt8) (offset : Option UInt16) : UInt32 × Host :=
  let (n, cpu) := h.cpu.load image (offset.getD Cpu.defaultOffset)
  (UInt32.ofNat n, ⟨cpu⟩)

/-- One step, and its cycles. -/
def step (h : Host) : Except String UInt32 × Host :=
  let (r, cpu) := h.cpu.step
  (failing (r.map fun s => UInt32.ofNat s.cycles), ⟨cpu⟩)

/-- Run for a budget of cycles, and the cycles executed. -/
def run (h : Host) (budget : UInt32) : Except String UInt32 × Host :=
  let (r, cpu) := h.cpu.run budget.toNat
  (failing (r.map UInt32.ofNat), ⟨cpu⟩)

def reset (h : Host) : Host := ⟨h.cpu.reset⟩

/-- An IRQ or an NMI arrives. -/
def raise (h : Host) (r : Request) : Host := ⟨h.cpu.raise r⟩

/-- Continue at an address. -/
def setPC (h : Host) (a : UInt16) : Host := ⟨{ h.cpu with regs := { h.cpu.regs with pc := a } }⟩

def read (h : Host) (a : UInt16) : UInt8 := h.cpu.bus.read a

def write (h : Host) (a : UInt16) (b : UInt8) : Host :=
  ⟨{ h.cpu with bus := h.cpu.bus.write a b }⟩

/-- The 256 bytes of a page. -/
def page (h : Host) (n : UInt8) : List UInt8 := Bus.dump h.cpu.bus (word 0 n) 256

/-- A number of lines with their bytes. -/
def list (h : Host) (a : UInt16) (count : UInt32) : List ListedLine :=
  (Line.list h.cpu.bus a count.toNat).map fun l => ⟨l.address, l.bytesOn h.cpu.bus, l.text⟩

end Host

end Nmos6502
