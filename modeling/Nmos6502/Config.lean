/-!
# Settings of a machine

Where the stack lies, where the three vectors are read from, and what an illegal opcode does. The
defaults are those of the hardware: the stack in page 1 and the vectors at the top of the address
space.
-/

namespace Nmos6502

/-- What a step does with a byte that is not a documented opcode. -/
inductive DecodePolicy
  /-- Fail and leave the machine as it was. -/
  | halt
  /-- Pass over the byte as if it were NOP. -/
  | skip
  deriving DecidableEq, Repr

/-- The places in memory that hold the address of a handler. -/
inductive HardwareVector
  | nmi
  | reset
  /-- Shared by IRQ and BRK. -/
  | irq
  deriving DecidableEq, Repr

structure Config where
  /-- High byte of every stack address. -/
  stackPage : UInt8 := 0x01
  nmiVector : UInt16 := 0xFFFA
  resetVector : UInt16 := 0xFFFC
  irqVector : UInt16 := 0xFFFE
  decodePolicy : DecodePolicy := .halt
  deriving DecidableEq, Repr

def DecodePolicy.name : DecodePolicy → String
  | halt => "Halt"
  | skip => "Skip"

def DecodePolicy.all : List DecodePolicy := [halt, skip]

def HardwareVector.name : HardwareVector → String
  | nmi => "Nmi"
  | reset => "Reset"
  | irq => "Irq"

def HardwareVector.all : List HardwareVector := [nmi, reset, irq]

namespace Config

/-- Where a vector is read from. -/
@[inline] def vector (c : Config) : HardwareVector → UInt16
  | .nmi => c.nmiVector
  | .reset => c.resetVector
  | .irq => c.irqVector

/-- Read a vector from another address. -/
def withVector (c : Config) (v : HardwareVector) (address : UInt16) : Config :=
  match v with
  | .nmi => { c with nmiVector := address }
  | .reset => { c with resetVector := address }
  | .irq => { c with irqVector := address }

theorem vector_withVector (c : Config) (v w : HardwareVector) (address : UInt16) :
    (c.withVector v address).vector w = if w = v then address else c.vector w := by
  cases v <;> cases w <;> rfl

end Config

end Nmos6502
