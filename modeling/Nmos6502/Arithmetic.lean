/-!
# Addition and subtraction

ADC and SBC are the two instructions that have a decimal mode. Carries enter and leave as a single
bit; a carry out of a difference means that nothing was borrowed.

In decimal mode a byte holds two digits, and the digits are corrected one after the other: a digit
above 9 moves on by 6, and a digit that borrowed moves back by 6. The corrections are made for every
byte, also for those whose halves are no decimal digits, so each step is written out. Signed
overflow of a decimal sum is taken before the tens are corrected; a decimal difference takes its
carry and its overflow from the binary one.

## Main definitions

* `Total` — the byte, the carry and the overflow that an operation leaves
* `add`, `subtract` — in either mode
-/

namespace Nmos6502

/-- What an addition or a subtraction leaves. -/
structure Total where
  value : UInt8
  carry : Bool
  overflow : Bool
  deriving DecidableEq, Repr

/-- Whether a byte is negative as a signed number. -/
def isNegative (b : UInt8) : Bool := 0x80 ≤ b

/-- Whether a sum of equally signed bytes has the other sign. -/
def sumOverflows (a m value : UInt8) : Bool :=
  isNegative a == isNegative m && isNegative a != isNegative value

/-- Whether a difference of differently signed bytes has the sign of the second. -/
def differenceOverflows (a m value : UInt8) : Bool :=
  isNegative a != isNegative m && isNegative a != isNegative value

/-! ## Sums -/

/-- The sum of two bytes and a carry. -/
def addBinary (a m : UInt8) (carry : Bool) : Total :=
  let sum := a.toNat + m.toNat + carry.toNat
  let value := UInt8.ofNat sum
  ⟨value, 255 < sum, sumOverflows a m value⟩

/-- A digit of a sum, corrected when it is above 9. -/
def correctedSum (digit : Nat) : Nat := if 9 < digit then digit + 6 else digit

/-- The sum of two bytes of two decimal digits and a carry. -/
def addDecimal (a m : UInt8) (carry : Bool) : Total :=
  let ones := correctedSum (a.toNat % 16 + m.toNat % 16 + carry.toNat)
  let tens := a.toNat / 16 + m.toNat / 16 + (if 15 < ones then 1 else 0)
  let uncorrected := UInt8.ofNat (tens * 16 + ones % 16)
  let corrected := correctedSum tens
  ⟨UInt8.ofNat (corrected * 16 + ones % 16), 15 < corrected, sumOverflows a m uncorrected⟩

/-- ADC, in binary or decimal mode. -/
def add (decimal : Bool) (a m : UInt8) (carry : Bool) : Total :=
  if decimal then addDecimal a m carry else addBinary a m carry

/-! ## Differences -/

/-- The difference of two bytes, less one without a carry. -/
def difference (a m : UInt8) (carry : Bool) : Int :=
  (a.toNat : Int) - m.toNat - (!carry).toNat

/-- The difference of two bytes. -/
def subtractBinary (a m : UInt8) (carry : Bool) : Total :=
  let value := UInt8.ofInt (difference a m carry)
  ⟨value, 0 ≤ difference a m carry, differenceOverflows a m value⟩

/-- A digit of a difference, corrected when it borrowed. -/
def correctedDifference (digit : Int) : Int := if digit < 0 then digit - 6 else digit

/-- The two decimal digits of a difference. -/
def decimalDifference (a m : UInt8) (carry : Bool) : UInt8 :=
  let ones := ((a.toNat % 16 : Nat) : Int) - (m.toNat % 16 : Nat) - (!carry).toNat
  let tens := ((a.toNat / 16 : Nat) : Int) - (m.toNat / 16 : Nat) - (if ones < 0 then 1 else 0)
  UInt8.ofInt (correctedDifference tens * 16 + correctedDifference ones % 16)

/-- SBC, in binary or decimal mode. -/
def subtract (decimal : Bool) (a m : UInt8) (carry : Bool) : Total :=
  let total := subtractBinary a m carry
  if decimal then { total with value := decimalDifference a m carry } else total

end Nmos6502
