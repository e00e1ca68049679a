import Nmos6502.Hex
import Nmos6502.Mode

/-!
# Faults

What can go wrong while the machine runs: a byte that is not a documented opcode, or a request for
the address of a mode that has none. Each fault carries its cause, and the wording is in one place.
-/

namespace Nmos6502

/-- A failure of execution, `IllegalOpcode` or `UnresolvableMode`. -/
inductive Fault
  /-- The byte at the address is not a documented opcode. -/
  | illegalOpcode (opcode : UInt8) (address : UInt16)
  /-- The mode denotes no address. -/
  | unresolvable (mode : Mode)
  deriving DecidableEq, Repr

def Fault.message : Fault → String
  | illegalOpcode opcode address =>
    "illegal opcode 0x" ++ Hex.byte opcode ++ " at $" ++ Hex.word address
  | unresolvable mode => "addressing mode " ++ mode.name ++ " does not resolve to a bus address"

end Nmos6502
