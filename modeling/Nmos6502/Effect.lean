import Nmos6502.Arithmetic
import Nmos6502.Operation
import Nmos6502.Registers

/-!
# What operations do to bytes and registers

The part of each family that needs neither the bus nor the program counter. A reader takes the byte
it read to new registers, a writer names the byte it writes, a modifier takes the byte it read to
the byte it writes and to a new status, a branch asks the status. The rest of an execution is the
same for all members of a family and is with the machine.

## Main definitions

* `Reader.apply`, `Writer.value`, `Implied.apply`
* `Shift.value`, `Shift.carryOut`, `Modifier.value`, `Modifier.status`
* `Branch.taken`
-/

namespace Nmos6502

/-! ## Readers and writers -/

namespace Registers

/-- ADC and SBC: take a sum or a difference into A, with C, V, Z and N. -/
def take (r : Registers) (t : Total) : Registers :=
  { r with
    a := t.value
    p := ((r.p.set Status.carry t.carry).set Status.overflow t.overflow).setZN t.value }

/-- CMP, CPX and CPY: C unless the register is below the byte, Z and N of the difference. -/
def compare (r : Registers) (register value : UInt8) : Registers :=
  { r with p := (r.p.set Status.carry (value ≤ register)).setZN (register - value) }

/-- BIT: Z from what A has in common with the byte, N and V from its bits 7 and 6. -/
def testBits (r : Registers) (value : UInt8) : Registers :=
  { r with
    p := ((r.p.set Status.zero (r.a &&& value == 0)).set Status.negative (0x80 ≤ value)).set
      Status.overflow (value &&& 0x40 != 0) }

end Registers

/-- The registers after a byte was read. -/
def Reader.apply (r : Registers) (value : UInt8) : Reader → Registers
  | lda => r.loadA value
  | ldx => r.loadX value
  | ldy => r.loadY value
  | and => r.loadA (r.a &&& value)
  | ora => r.loadA (r.a ||| value)
  | eor => r.loadA (r.a ^^^ value)
  | adc => r.take (add (r.p.contains Status.decimal) r.a value (r.p.contains Status.carry))
  | sbc => r.take (subtract (r.p.contains Status.decimal) r.a value (r.p.contains Status.carry))
  | cmp => r.compare r.a value
  | cpx => r.compare r.x value
  | cpy => r.compare r.y value
  | bit => r.testBits value

/-- The byte that is written. -/
def Writer.value (r : Registers) : Writer → UInt8
  | sta => r.a
  | stx => r.x
  | sty => r.y

/-! ## Changing a byte -/

/-- The shifted byte. ROL and ROR take the carry in at the free end. -/
def Shift.value (carry : Bool) (b : UInt8) : Shift → UInt8
  | asl => b + b
  | lsr => b / 2
  | rol => b + b + (if carry then 1 else 0)
  | ror => b / 2 + (if carry then 0x80 else 0)

/-- The bit that is shifted out. -/
def Shift.carryOut (b : UInt8) : Shift → Bool
  | asl | rol => 0x80 ≤ b
  | lsr | ror => b % 2 == 1

/-- The changed byte. -/
def Modifier.value (p : Status) (b : UInt8) : Modifier → UInt8
  | inc => b + 1
  | dec => b - 1
  | shift s => s.value (p.contains Status.carry) b

/-- The status after a byte is changed: C by the shifts only, Z and N always. -/
def Modifier.status (p : Status) (b : UInt8) : Modifier → Status
  | inc => p.setZN (b + 1)
  | dec => p.setZN (b - 1)
  | shift s => (p.set Status.carry (s.carryOut b)).setZN (s.value (p.contains Status.carry) b)

/-- The registers after ASL, LSR, ROL or ROR of A. -/
def Shift.apply (r : Registers) (s : Shift) : Registers :=
  { r with
    a := Modifier.value r.p r.a (.shift s)
    p := Modifier.status r.p r.a (.shift s) }

/-! ## Registers alone -/

/-- The registers after TAX, INX, CLC, NOP and their like. -/
def Implied.apply (r : Registers) : Implied → Registers
  | tax => r.loadX r.a
  | tay => r.loadY r.a
  | txa => r.loadA r.x
  | tya => r.loadA r.y
  | tsx => r.loadX r.s
  | txs => { r with s := r.x }
  | inx => r.loadX (r.x + 1)
  | iny => r.loadY (r.y + 1)
  | dex => r.loadX (r.x - 1)
  | dey => r.loadY (r.y - 1)
  | clc => { r with p := r.p.set Status.carry false }
  | sec => { r with p := r.p.set Status.carry true }
  | cli => { r with p := r.p.set Status.interruptDisable false }
  | sei => { r with p := r.p.set Status.interruptDisable true }
  | cld => { r with p := r.p.set Status.decimal false }
  | sed => { r with p := r.p.set Status.decimal true }
  | clv => { r with p := r.p.set Status.overflow false }
  | nop => r

/-! ## Branches -/

/-- The flag that BCC and its like ask for. -/
def Branch.flag : Branch → UInt8
  | bcc | bcs => Status.carry
  | beq | bne => Status.zero
  | bmi | bpl => Status.negative
  | bvc | bvs => Status.overflow

/-- The value of the flag for which the branch is taken. -/
def Branch.wanted : Branch → Bool
  | bcs | beq | bmi | bvs => true
  | bcc | bne | bpl | bvc => false

def Branch.taken (p : Status) (b : Branch) : Bool := p.contains b.flag == b.wanted

end Nmos6502
