import Nmos6502.Cpu.Load
import Nmos6502.Cpu.Step

/-!
# The monitor

Everything that can be asked of a machine from outside, as data. A `Command` names one operation
with its arguments, a `Reply` is what the operation gives back, and `Cpu.exec` carries a command
out. A session with a machine is then a list of commands, and a fact about all sessions is a fact
about lists.

## Main definitions

* `Command`, `Reply`
* `Cpu.exec` — carry out one command
* `Cpu.session` — carry out a list of them
-/

universe u

namespace Nmos6502

/-- An operation on a machine. -/
inductive Command
  | step
  /-- Run for a budget of cycles. -/
  | run (budget : Nat)
  | reset
  | resetCycles
  /-- Load a program from a block. -/
  | load (image : List UInt8) (offset : UInt16)
  /-- Load a program from a feed. -/
  | loadFrom (feed : Feed) (offset : UInt16)
  | push (b : UInt8)
  | pushWord (w : UInt16)
  | pull
  | pullWord
  | peek (a : UInt16)
  | peekWord (a : UInt16)
  | poke (a : UInt16) (b : UInt8)
  | pokeWord (a : UInt16) (w : UInt16)
  /-- Put a block on the bus without a reset. -/
  | transfer (a : UInt16) (block : List UInt8)
  /-- Read consecutive bytes. -/
  | dump (a : UInt16) (count : Nat)
  | setA (b : UInt8)
  | setX (b : UInt8)
  | setY (b : UInt8)
  | setStackPointer (b : UInt8)
  | setPC (a : UInt16)
  /-- Set the status from a byte. -/
  | setStatus (b : UInt8)
  /-- Set or clear the flags of a mask. -/
  | setFlag (mask : UInt8) (on : Bool)
  | registers
  | config
  | setStackPage (page : UInt8)
  /-- Read a vector from another address. -/
  | setVector (v : HardwareVector) (a : UInt16)
  /-- Write the address of the handler of IRQ and BRK to its vector. -/
  | setHandler (a : UInt16)
  | raise (r : Request)
  | effectiveAddress (m : Mode)
  /-- List a number of lines. -/
  | list (a : UInt16) (count : Nat)

/-- What an operation gives back. -/
inductive Reply
  | done
  | stepped (r : Except Fault Step)
  | ran (r : Except Fault Nat)
  | loaded (r : Except FeedError Nat)
  | byte (b : UInt8)
  | word (w : UInt16)
  | bytes (bs : List UInt8)
  | registers (r : Registers)
  | config (c : Config)
  | address (r : Except Fault UInt16)
  | lines (ls : List Line)

namespace Cpu

variable {β : Type u} [Bus β]

/-- Carry out a command. -/
def exec (c : Cpu β) : Command → Reply × Cpu β
  | .step =>
    let (r, c) := c.step
    (.stepped r, c)
  | .run budget =>
    let (r, c) := c.run budget
    (.ran r, c)
  | .reset => (.done, c.reset)
  | .resetCycles => (.done, c.resetCycles)
  | .load image offset =>
    let (n, c) := c.load image offset
    (.loaded (.ok n), c)
  | .loadFrom feed offset =>
    let (r, c) := c.loadFrom feed offset
    (.loaded r, c)
  | .push b => (.done, c.push b)
  | .pushWord w => (.done, c.pushWord w)
  | .pull =>
    let (b, c) := c.pull
    (.byte b, c)
  | .pullWord =>
    let (w, c) := c.pullWord
    (.word w, c)
  | .peek a => (.byte (Bus.read c.bus a), c)
  | .peekWord a => (.word (Bus.readWord c.bus a), c)
  | .poke a b => (.done, { c with bus := Bus.write c.bus a b })
  | .pokeWord a w => (.done, { c with bus := Bus.writeWord c.bus a w })
  | .transfer a block =>
    let (bus, n) := Bus.load c.bus a block
    (.loaded (.ok n), { c with bus })
  | .dump a count => (.bytes (Bus.dump c.bus a count), c)
  | .setA b => (.done, { c with regs := { c.regs with a := b } })
  | .setX b => (.done, { c with regs := { c.regs with x := b } })
  | .setY b => (.done, { c with regs := { c.regs with y := b } })
  | .setStackPointer b => (.done, { c with regs := { c.regs with s := b } })
  | .setPC a => (.done, { c with regs := { c.regs with pc := a } })
  | .setStatus b => (.done, { c with regs := { c.regs with p := Status.ofByte b } })
  | .setFlag mask on => (.done, { c with regs := { c.regs with p := c.regs.p.set mask on } })
  | .registers => (.registers c.regs, c)
  | .config => (.config c.config, c)
  | .setStackPage page => (.done, { c with config := { c.config with stackPage := page } })
  | .setVector v a => (.done, { c with config := c.config.withVector v a })
  | .setHandler a => (.done, { c with bus := Bus.writeWord c.bus c.config.irqVector a })
  | .raise r => (.done, c.raise r)
  | .effectiveAddress m => (.address (c.effectiveAddress m), c)
  | .list a count => (.lines (Line.list c.bus a count), c)

/-- Carry out commands one after the other. -/
def session (c : Cpu β) : List Command → List Reply × Cpu β
  | [] => ([], c)
  | command :: rest =>
    let (reply, c) := c.exec command
    let (replies, c) := session c rest
    (reply :: replies, c)

end Cpu

end Nmos6502
