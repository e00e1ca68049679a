import Nmos6502.Status

/-!
# The registers

The visible state of the processor: the accumulator, two index registers, the status, the stack
pointer and the program counter.
-/

namespace Nmos6502

structure Registers where
  /-- The accumulator. -/
  a : UInt8
  /-- The first index register. -/
  x : UInt8
  /-- The second index register. -/
  y : UInt8
  /-- The status. -/
  p : Status
  /-- The stack pointer, an offset in the stack page. -/
  s : UInt8
  /-- The program counter. -/
  pc : UInt16
  deriving DecidableEq, Repr

namespace Registers

/-- Write Z and N from a result. -/
def setZN (r : Registers) (value : UInt8) : Registers := { r with p := r.p.setZN value }

/-- Load the accumulator and set the flags for it. -/
def loadA (r : Registers) (value : UInt8) : Registers := { r with a := value }.setZN value

/-- Load X and set the flags for it. -/
def loadX (r : Registers) (value : UInt8) : Registers := { r with x := value }.setZN value

/-- Load Y and set the flags for it. -/
def loadY (r : Registers) (value : UInt8) : Registers := { r with y := value }.setZN value

/-- Move the program counter past `n` bytes. -/
def advance (r : Registers) (n : Nat) : Registers := { r with pc := r.pc + UInt16.ofNat n }

end Registers

end Nmos6502
