import Nmos6502.Cpu.Basic
import Nmos6502.Feed
import Nmos6502.Memory

/-!
# Loading a program, and machines with a given memory

A program image is put on the bus as one block and the machine is reset. If the image brings its own
reset vector, both bytes of it, the reset has already found where to continue. Otherwise the program
is taken to start with its first byte.

## Main definitions

* `Cpu.load` — from a block of bytes
* `Cpu.loadFrom` — from a feed, which may fail before anything is changed
* `Memory.install`, `Cpu.withMemorySize` — a memory of a given size, and a machine on one
-/

universe u

namespace Nmos6502

namespace Cpu

variable {β : Type u} [Bus β]

/-- Where a program goes unless another address is given. -/
def defaultOffset : UInt16 := 0x0200

/-- Whether `count` bytes from `offset` on include both bytes of the vector, without wrapping. -/
def coversVector (vector offset : UInt16) (count : Nat) : Bool :=
  offset.toNat ≤ vector.toNat && vector.toNat + 2 ≤ offset.toNat + count

/-- Put a program on the bus and reset. Gives the number of bytes that were put in. -/
def load (c : Cpu β) (image : List UInt8) (offset : UInt16) : Nat × Cpu β :=
  let (bus, count) := Bus.load c.bus offset image
  let c := { c with bus }.reset
  let pc := if coversVector c.config.resetVector offset count then c.regs.pc else offset
  (count, { c with regs := { c.regs with pc } }.record (.loaded count offset pc))

/-- Load what a feed hands out, up to the end of the address space. If the feed fails, nothing is
changed. -/
def loadFrom (c : Cpu β) (feed : Feed) (offset : UInt16) : Except FeedError Nat × Cpu β :=
  match feed.collect (Bus.room offset) with
  | .error e => (.error e, c)
  | .ok image =>
    let (count, c) := c.load image offset
    (.ok count, c)

end Cpu

/-! ## Memory of a given size -/

/-- A memory with `size` bytes installed. The journal says so if there cannot be as many. -/
def Memory.install (size : Nat) (journal : Journal) : Except SizeError (Memory × Journal) :=
  match Memory.ofSize size with
  | .error e => .error e
  | .ok m => .ok (m, if 65536 < size then journal.record (.sizeClamped size) else journal)

/-- A machine on a memory with `size` bytes installed. -/
def Cpu.withMemorySize (size : Nat) (config : Config) (journal : Journal) :
    Except SizeError (Cpu Memory) :=
  match Memory.install size journal with
  | .error e => .error e
  | .ok (m, journal) => .ok (Cpu.powerOn config journal m)

end Nmos6502
