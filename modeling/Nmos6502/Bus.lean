import Nmos6502.Word

/-!
# The bus

The processor sees the rest of the machine through a bus of 65536 addresses. A bus need only say how
one byte is read and how one byte is written; reading and writing cannot fail, and a device may
ignore a write. Words are two bytes, low byte first, and their second address wraps.

A bus may also say how a block of bytes is put in at once. By default that is one write for each
byte. A memory that is filled from outside may do it in another way, so `transfer` is part of the
class and not a function on it. How much of a block there is room for is the same for every bus:
`Bus.load` cuts the block to the room above its first address, and counts.

## What is assumed of a device

`Bus.read` gives a byte and no new device. So reading changes nothing, however often it is done and
whoever does it, a listing included. A device with a register that is cleared when it is read is not
described by this class, and nothing here is about it.

`Bus.load` is not up to the device either. It takes the first bytes of a block, as many as there are
addresses from the offset on, and reports just that number. This is what the contract of `load`
promises for every device. One that takes fewer bytes, or wraps around, is outside of it.

## Main definitions

* `Bus` — what a device offers
* `Bus.readWord`, `Bus.writeWord` — words
* `Bus.room`, `Bus.load` — a block cut to the end of the address space, and its length
* `Bus.dump` — consecutive bytes
-/

universe u

namespace Nmos6502

/-- Write bytes one by one to consecutive addresses, wrapping at the end of the address space. -/
def writeEach {β : Type u} (write : β → UInt16 → UInt8 → β) (bus : β) (a : UInt16) :
    List UInt8 → β
  | [] => bus
  | b :: rest => writeEach write (write bus a b) (a + 1) rest

/-- A device on the 16-bit bus. -/
class Bus (β : Type u) where
  /-- The byte at an address. -/
  read : β → UInt16 → UInt8
  /-- The device after a byte is written to an address. -/
  write : β → UInt16 → UInt8 → β
  /-- The device after a block is put in from an address on. -/
  transfer : β → UInt16 → List UInt8 → β := writeEach write

namespace Bus

variable {β : Type u} [Bus β]

/-! ## Words -/

/-- The word at an address: low byte there, high byte at the next address. -/
def readWord (bus : β) (a : UInt16) : UInt16 := word (read bus a) (read bus (a + 1))

/-- Write a word, low byte first. -/
def writeWord (bus : β) (a : UInt16) (w : UInt16) : β :=
  write (write bus a (lowByte w)) (a + 1) (highByte w)

/-- The word at an address of which both bytes lie in the same page. -/
def readWordInPage (bus : β) (a : UInt16) : UInt16 := word (read bus a) (read bus (nextInPage a))

/-! ## Blocks -/

/-- How many bytes there are from an address to the end of the address space. -/
def room (a : UInt16) : Nat := 65536 - a.toNat

/-- Put in as much of a block as there is room for, and say how much that is. -/
def load (bus : β) (offset : UInt16) (block : List UInt8) : β × Nat :=
  (transfer bus offset (block.take (room offset)), min block.length (room offset))

/-- The bytes at `count` consecutive addresses, wrapping. -/
def dump (bus : β) (a : UInt16) : (count : Nat) → List UInt8
  | 0 => []
  | count + 1 => read bus a :: dump bus (a + 1) count

@[simp] theorem length_dump (bus : β) (a : UInt16) (count : Nat) :
    (dump bus a count).length = count := by
  induction count generalizing a with
  | zero => rfl
  | succ count ih => simp [dump, ih]

end Bus

end Nmos6502
