import Nmos6502.Bus
import Nmos6502.Hex
import Nmos6502.Opcode

/-!
# Assembly listings

A line of a listing is an instruction with its operand, or a byte that is not part of one. Lines
come from the bus, where there is always a next byte, or from a block of bytes that ends. In a block
the last instruction may lack its operand: then its opcode and what is left are bytes.

## Main definitions

* `Line` — one line, with its address
* `Line.decodeAt` — the line at an address of the bus
* `Line.decode?` — the line at the start of a block
* `Line.disassemble` — all lines of a block
* `Line.list` — a number of lines from the bus
* `Line.text` — how a line is written
-/

universe u

namespace Nmos6502

/-- A line of a listing. -/
inductive Line
  /-- A documented instruction. The operand is 0 where the mode has none. -/
  | instruction (address : UInt16) (opcode : Opcode) (operand : UInt16)
  /-- A byte that stands for itself. -/
  | byte (address : UInt16) (value : UInt8)
  deriving DecidableEq, Repr

namespace Line

/-! ## The parts of a line -/

/-- The address of the first byte. -/
def address : Line → UInt16
  | instruction a _ _ | byte a _ => a

/-- The first byte. -/
def value : Line → UInt8
  | instruction _ o _ => o.byte
  | byte _ b => b

/-- The documented opcode. -/
def opcode? : Line → Option Opcode
  | instruction _ o _ => some o
  | byte _ _ => none

/-- The operand, 0 where there is none. -/
def operand : Line → UInt16
  | instruction _ _ w => w
  | byte _ _ => 0

/-- How many bytes the line stands for. -/
def size : Line → Nat
  | instruction _ o _ => o.size
  | byte _ _ => 1

theorem size_pos (l : Line) : 0 < l.size := by
  cases l with
  | instruction a o w => exact o.size_pos
  | byte a b => exact Nat.one_pos

/-! ## Lines from the bus -/

section FromBus

variable {β : Type u} [Bus β]

/-- The operand in the `count` bytes from an address on. -/
def operandAt (bus : β) (a : UInt16) : (count : Nat) → UInt16
  | 1 => (Bus.read bus a).toUInt16
  | 2 => Bus.readWord bus a
  | _ => 0

/-- The line at an address. Operands wrap at the end of the address space. -/
def decodeAt (bus : β) (a : UInt16) : Line :=
  match Opcode.ofByte? (Bus.read bus a) with
  | some o => instruction a o (operandAt bus (a + 1) o.mode.operandBytes)
  | none => byte a (Bus.read bus a)

/-- A number of lines, each after the one before it. -/
def list (bus : β) (a : UInt16) : (count : Nat) → List Line
  | 0 => []
  | count + 1 => decodeAt bus a :: list bus (a + UInt16.ofNat (decodeAt bus a).size) count

/-- The bytes on the bus that a line stands for. -/
def bytesOn (bus : β) (l : Line) : List UInt8 := Bus.dump bus l.address l.size

end FromBus

/-! ## Lines from a block -/

/-- The operand in the first `count` bytes, if there are as many. -/
def operandIn? : (count : Nat) → List UInt8 → Option UInt16
  | 0, _ => some 0
  | 1, b :: _ => some b.toUInt16
  | 2, lo :: hi :: _ => some (word lo hi)
  | _, _ => none

/-- The instruction at the start of a block, if its first byte is a documented opcode and the block
holds all of it. -/
def decode? (block : List UInt8) (a : UInt16) : Option Line :=
  match block with
  | [] => none
  | b :: rest => do
    let o ← Opcode.ofByte? b
    let w ← operandIn? o.mode.operandBytes rest
    return instruction a o w

/-- A block as bytes. -/
def bytes : List UInt8 → UInt16 → List Line
  | [], _ => []
  | b :: rest, a => byte a b :: bytes rest (a + 1)

/-- The lines of a block whose first byte is at `a`. A byte that is not a documented opcode is a
line of its own. When the block ends within an instruction, the rest of it is bytes. -/
def disassemble (block : List UInt8) (a : UInt16) : List Line :=
  match block with
  | [] => []
  | b :: rest =>
    match decode? (b :: rest) a with
    | some l => l :: disassemble (rest.drop (l.size - 1)) (a + UInt16.ofNat l.size)
    | none =>
      if (Opcode.ofByte? b).isSome then bytes (b :: rest) a
      else byte a b :: disassemble rest (a + 1)
  termination_by block.length

/-! ## Text -/

/-- Where a branch goes: from the next instruction, by the operand as a signed byte. -/
def branchTarget (a : UInt16) (operand : UInt16) : UInt16 := displaced (a + 2) (lowByte operand)

/-- How an operand is written. -/
def operandText (mode : Mode) (a : UInt16) (w : UInt16) : String :=
  match mode with
  | .implicit => ""
  | .accumulator => " A"
  | .relative => " $" ++ Hex.word (branchTarget a w)
  | .memory .immediate => " #$" ++ Hex.byte (lowByte w)
  | .memory .zeroPage => " $" ++ Hex.byte (lowByte w)
  | .memory .zeroPageX => " $" ++ Hex.byte (lowByte w) ++ ",X"
  | .memory .zeroPageY => " $" ++ Hex.byte (lowByte w) ++ ",Y"
  | .memory .absolute => " $" ++ Hex.word w
  | .memory .absoluteX => " $" ++ Hex.word w ++ ",X"
  | .memory .absoluteY => " $" ++ Hex.word w ++ ",Y"
  | .memory .indirect => " ($" ++ Hex.word w ++ ")"
  | .memory .indirectX => " ($" ++ Hex.byte (lowByte w) ++ ",X)"
  | .memory .indirectY => " ($" ++ Hex.byte (lowByte w) ++ "),Y"

/-- A line as the assembler would take it. -/
def text : Line → String
  | instruction a o w => o.mnemonic.name ++ operandText o.mode a w
  | byte _ b => ".byte $" ++ Hex.byte b

end Line

end Nmos6502
