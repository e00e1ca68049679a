/-!
# The status register

Six flags in one byte. Of the other two bits, bit 5 reads as one and bit 4, the break marker B, is
kept clear: it exists only in copies that are pushed. `Status.ofByte` is the single place that
brings an arbitrary byte into that form, and every update goes through it.

`Status` itself is any byte. A status that was read back from stored data is taken as it is, so "bit
5 set and bit 4 clear" is a fact about how a value was made and not about the type.

## Main definitions

* `Status.ofByte` — a byte with bit 4 dropped and bit 5 forced
* `Status.contains`, `Status.set` — reading and changing the flags in a mask
* `Status.setZN` — the flags for a result
* `Status.pushed` — the copy that goes to the stack
-/

namespace Nmos6502

/-- The status register, as its byte. -/
structure Status where
  bits : UInt8
  deriving DecidableEq, Repr

namespace Status

/-! ## The masks -/

/-- C: a carry out of a sum, or no borrow in a difference. -/
def carry : UInt8 := 0x01

/-- Z: the last result was zero. -/
def zero : UInt8 := 0x02

/-- I: an IRQ has to wait. -/
def interruptDisable : UInt8 := 0x04

/-- D: ADC and SBC are decimal. -/
def decimal : UInt8 := 0x08

/-- B, in bit 4: marks a copy that PHP or BRK pushed. -/
def breakMark : UInt8 := 0x10

/-- Bit 5, which is always set. -/
def reserved : UInt8 := 0x20

/-- V: signed overflow. -/
def overflow : UInt8 := 0x40

/-- N: the last result was negative. -/
def negative : UInt8 := 0x80

/-! ## Reading and changing flags -/

/-- The status for a byte that PLP or RTI pulls, or that is given from outside: B is dropped and bit
5 is set. -/
@[inline] def ofByte (b : UInt8) : Status := ⟨(b &&& ~~~breakMark) ||| reserved⟩

/-- The status at power-on: no flag set. -/
def initial : Status := ⟨reserved⟩

/-- Whether every flag of the mask is set. -/
@[inline] def contains (p : Status) (mask : UInt8) : Bool := p.bits &&& mask == mask

/-- Set or clear every flag of the mask. Bits 4 and 5 keep their fixed values. -/
@[inline] def set (p : Status) (mask : UInt8) (on : Bool) : Status :=
  ofByte (if on then p.bits ||| mask else p.bits &&& ~~~mask)

/-- Write Z and N from a result. -/
def setZN (p : Status) (value : UInt8) : Status :=
  (p.set zero (value == 0)).set negative (0x80 ≤ value)

/-- The byte that is pushed. PHP and BRK mark it, IRQ and NMI do not. -/
@[inline] def pushed (p : Status) (marked : Bool) : UInt8 :=
  if marked then p.bits ||| breakMark ||| reserved else p.bits ||| reserved

end Status

end Nmos6502
