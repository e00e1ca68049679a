import Nmos6502.Config
import Nmos6502.Datum
import Nmos6502.Registers

/-!
# Settings and registers as data

How the settings of a machine and its registers are written as structured data, and how they are
read back. The status is written as its byte and read as the byte says, whatever its bits 4 and 5.

## Main definitions

* `DecodePolicy.ofDatum?`, `HardwareVector.ofDatum?`, `Status.ofDatum?`, `Config.ofDatum?`,
  `Registers.ofDatum?` — reading
* the functions `toDatum` — writing
-/

namespace Nmos6502

/-! ## Names -/

def DecodePolicy.ofDatum? : Datum → Option DecodePolicy := Datum.choice? name all

def DecodePolicy.toDatum (p : DecodePolicy) : Datum := .text p.name

def HardwareVector.ofDatum? : Datum → Option HardwareVector := Datum.choice? name all

def HardwareVector.toDatum (v : HardwareVector) : Datum := .text v.name

/-! ## The status -/

/-- Read a status, with every bit as it is stored. -/
def Status.ofDatum? (d : Datum) : Option Status := d.byte?.map Status.mk

def Status.toDatum (p : Status) : Datum := .ofByte p.bits

/-! ## Records -/

/-- The fields of the settings, in their order. -/
def Config.fieldNames : List String :=
  ["stack_page", "nmi_vector", "reset_vector", "irq_vector", "decode_policy"]

def Config.ofDatum? (d : Datum) : Option Config := do
  match ← d.fields? fieldNames with
  | [page, nmi, reset, irq, policy] =>
    return ⟨← page.byte?, ← nmi.word?, ← reset.word?, ← irq.word?, ← DecodePolicy.ofDatum? policy⟩
  | _ => none

def Config.toDatum (c : Config) : Datum :=
  .object (fieldNames.zip
    [.ofByte c.stackPage, .ofWord c.nmiVector, .ofWord c.resetVector, .ofWord c.irqVector,
      c.decodePolicy.toDatum])

/-- The fields of the registers, in their order. -/
def Registers.fieldNames : List String := ["a", "x", "y", "p", "s", "pc"]

def Registers.ofDatum? (d : Datum) : Option Registers := do
  match ← d.fields? fieldNames with
  | [a, x, y, p, s, pc] =>
    return ⟨← a.byte?, ← x.byte?, ← y.byte?, ← Status.ofDatum? p, ← s.byte?, ← pc.word?⟩
  | _ => none

def Registers.toDatum (r : Registers) : Datum :=
  .object (fieldNames.zip
    [.ofByte r.a, .ofByte r.x, .ofByte r.y, r.p.toDatum, .ofByte r.s, .ofWord r.pc])

end Nmos6502
