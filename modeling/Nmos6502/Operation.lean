import Nmos6502.Mode

/-!
# Mnemonics and operations

The 56 mnemonics fall into families by what they do with their operand: some read a byte from
memory (LDA, ADC, CMP), some write one (STA), some change one in place (INC, ASL), some use only
registers (TAX, CLC), some the stack (PHA, RTI). A `Mnemonic` is a member of a family and says
nothing of the addressing mode. Any mnemonic can be put together with any mode, but most of the
pairs mean nothing: there is no STA of the accumulator, and no LDA without an operand.

An `Operation` is a pair that does mean something. It carries a `Place` where it needs an address,
so a statement such as "only these write to the bus" is a statement about constructors.
`Mnemonic.operation?` reads a pair as an operation.

## Main definitions

* `Reader`, `Writer`, `Shift`, `Modifier`, `Branch`, `Implied`, `Stacked` — the families
* `Mnemonic`, `Mnemonic.name` — LDA, ADC and so on
* `Operation` — a mnemonic in a mode that it has
* `Mnemonic.operation?` — a mnemonic and a mode, read as an operation
* `Operation.size` — the length in bytes, opcode included

## Main results

* `Mnemonic.operation?_eq_some_iff` — a pair is read as the operation that is written as the pair
-/

namespace Nmos6502

/-! ## The families -/

/-- Instructions that read one byte from memory and change registers only. -/
inductive Reader
  | lda | ldx | ldy | and | ora | eor | adc | sbc | cmp | cpx | cpy | bit
  deriving DecidableEq, Repr

/-- Instructions that write one register to memory and change nothing else. -/
inductive Writer
  | sta | stx | sty
  deriving DecidableEq, Repr

/-- Shifts and rotations by one bit, of the accumulator or of a byte in memory. -/
inductive Shift
  | asl | lsr | rol | ror
  deriving DecidableEq, Repr

/-- Instructions that read a byte from memory and write it back changed. -/
inductive Modifier
  | inc | dec | shift (s : Shift)
  deriving DecidableEq, Repr

/-- Conditional branches. -/
inductive Branch
  | bcc | bcs | beq | bne | bmi | bpl | bvc | bvs
  deriving DecidableEq, Repr

/-- Instructions that use registers alone: transfers, counting an index register, flags. -/
inductive Implied
  | tax | tay | txa | tya | tsx | txs
  | inx | iny | dex | dey
  | clc | sec | cli | sei | cld | sed | clv
  | nop
  deriving DecidableEq, Repr

/-- Instructions that push to the stack or pull from it, RTS, RTI and BRK among them. -/
inductive Stacked
  | pha | php | pla | plp | rts | rti | brk
  deriving DecidableEq, Repr

/-- The 56 mnemonics. -/
inductive Mnemonic
  /-- LDA, LDX, LDY, AND, ORA, EOR, ADC, SBC, CMP, CPX, CPY, BIT. -/
  | read (r : Reader)
  /-- STA, STX, STY. -/
  | write (w : Writer)
  /-- INC, DEC, ASL, LSR, ROL, ROR. -/
  | modify (m : Modifier)
  /-- BCC, BCS, BEQ, BNE, BMI, BPL, BVC, BVS. -/
  | branch (b : Branch)
  | jmp
  | jsr
  /-- Transfers, INX and its like, flags, NOP. -/
  | implied (i : Implied)
  /-- PHA, PHP, PLA, PLP, RTS, RTI, BRK. -/
  | stacked (s : Stacked)
  deriving DecidableEq, Repr

/-- A mnemonic in a mode that it has. -/
inductive Operation
  /-- Read the byte at `p`. -/
  | read (r : Reader) (p : Place)
  /-- Write a register to `p`. -/
  | write (w : Writer) (p : Place)
  /-- Change the byte at `p`. -/
  | modify (m : Modifier) (p : Place)
  /-- Shift the accumulator. -/
  | shift (s : Shift)
  /-- Branch on a flag. -/
  | branch (b : Branch)
  /-- JMP to the address that `p` denotes. -/
  | jump (p : Place)
  /-- JSR to the operand word. -/
  | call
  /-- Use registers alone. -/
  | implied (i : Implied)
  /-- Push or pull. -/
  | stacked (s : Stacked)
  deriving DecidableEq, Repr

/-! ## Names

The mnemonics as the assembler writes them. -/

def Reader.name : Reader → String
  | lda => "LDA" | ldx => "LDX" | ldy => "LDY" | and => "AND" | ora => "ORA" | eor => "EOR"
  | adc => "ADC" | sbc => "SBC" | cmp => "CMP" | cpx => "CPX" | cpy => "CPY" | bit => "BIT"

def Writer.name : Writer → String
  | sta => "STA" | stx => "STX" | sty => "STY"

def Shift.name : Shift → String
  | asl => "ASL" | lsr => "LSR" | rol => "ROL" | ror => "ROR"

def Modifier.name : Modifier → String
  | inc => "INC" | dec => "DEC" | shift s => s.name

def Branch.name : Branch → String
  | bcc => "BCC" | bcs => "BCS" | beq => "BEQ" | bne => "BNE"
  | bmi => "BMI" | bpl => "BPL" | bvc => "BVC" | bvs => "BVS"

def Implied.name : Implied → String
  | tax => "TAX" | tay => "TAY" | txa => "TXA" | tya => "TYA" | tsx => "TSX" | txs => "TXS"
  | inx => "INX" | iny => "INY" | dex => "DEX" | dey => "DEY"
  | clc => "CLC" | sec => "SEC" | cli => "CLI" | sei => "SEI" | cld => "CLD" | sed => "SED"
  | clv => "CLV"
  | nop => "NOP"

def Stacked.name : Stacked → String
  | pha => "PHA" | php => "PHP" | pla => "PLA" | plp => "PLP"
  | rts => "RTS" | rti => "RTI" | brk => "BRK"

namespace Mnemonic

def name : Mnemonic → String
  | read r => r.name
  | write w => w.name
  | modify m => m.name
  | branch b => b.name
  | jmp => "JMP"
  | jsr => "JSR"
  | implied i => i.name
  | stacked s => s.name

theorem length_name (m : Mnemonic) : m.name.toList.length = 3 := by
  cases m with
  | read r => cases r <;> simp [name, Reader.name]
  | write w => cases w <;> simp [name, Writer.name]
  | modify m =>
    cases m with
    | shift s => cases s <;> simp [name, Modifier.name, Shift.name]
    | inc | dec => simp [name, Modifier.name]
  | branch b => cases b <;> simp [name, Branch.name]
  | implied i => cases i <;> simp [name, Implied.name]
  | stacked s => cases s <;> simp [name, Stacked.name]
  | jmp => simp [name]
  | jsr => simp [name]

end Mnemonic

namespace Operation

/-! ## Operations and pairs -/

def mnemonic : Operation → Mnemonic
  | read r _ => .read r
  | write w _ => .write w
  | modify m _ => .modify m
  | shift s => .modify (.shift s)
  | branch b => .branch b
  | jump _ => .jmp
  | call => .jsr
  | implied i => .implied i
  | stacked s => .stacked s

def mode : Operation → Mode
  | read _ p | write _ p | modify _ p | jump p => .memory p
  | shift _ => .accumulator
  | branch _ => .relative
  | call => .memory .absolute
  | implied _ | stacked _ => .implicit

/-- Length in bytes: the opcode and its operand. -/
def size (o : Operation) : Nat := 1 + o.mode.operandBytes

end Operation

/-- A mnemonic and a mode as an operation, if the mnemonic has the mode. -/
def Mnemonic.operation? : Mnemonic → Mode → Option Operation
  | .read r, .memory p => some (.read r p)
  | .write w, .memory p => some (.write w p)
  | .modify m, .memory p => some (.modify m p)
  | .modify (.shift s), .accumulator => some (.shift s)
  | .branch b, .relative => some (.branch b)
  | .jmp, .memory p => some (.jump p)
  | .jsr, .memory .absolute => some .call
  | .implied i, .implicit => some (.implied i)
  | .stacked s, .implicit => some (.stacked s)
  | _, _ => none

/-- **A pair is read as the operation that is written as the pair.** -/
theorem Mnemonic.operation?_eq_some_iff {m : Mnemonic} {mode : Mode} {o : Operation} :
    m.operation? mode = some o ↔ m = o.mnemonic ∧ mode = o.mode := by
  constructor
  · intro h
    rw [operation?.eq_def] at h
    split at h <;> cases h <;> exact ⟨rfl, rfl⟩
  · rintro ⟨rfl, rfl⟩
    cases o <;> rfl

end Nmos6502
