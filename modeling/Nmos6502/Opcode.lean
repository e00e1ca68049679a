import Nmos6502.Operation

/-!
# The opcode table

151 of the 256 bytes are documented opcodes. `Opcode.documented` lists them in order, each with its
mnemonic, its addressing mode and the cycles it takes before a taken branch adds to them. The other
105 bytes are not opcodes: `Opcode.ofByte?` answers `none` for them and nothing is guessed.

A row of the table is free to pair any mnemonic with any mode. That every row pairs a mnemonic with
a mode that it has is a fact about the table, `Opcode.operation?_eq_some`, and what is proved of
`Opcode.operation` rests on it.

## Main definitions

* `Opcode` — a row: byte, mnemonic, addressing mode, base cycles
* `Opcode.documented` — the 151 rows
* `Opcode.ofByte?` — the row for a byte
* `Opcode.operation` — the operation of a row

## Main results

* `Opcode.mem_documented_of_ofByte?`, `Opcode.byte_of_ofByte?` — what is found is in the table
* `Opcode.operation?_eq_some` — every row of the table is an operation
* `Opcode.two_le_cycles` — no documented opcode takes fewer than two cycles
-/

namespace Nmos6502

/-- A row of the opcode table. -/
structure Opcode where
  /-- The byte in memory. -/
  byte : UInt8
  mnemonic : Mnemonic
  mode : Mode
  /-- Cycles, without those a taken branch adds. -/
  cycles : Nat
  deriving DecidableEq, Repr

namespace Opcode

/-- The documented opcodes, in the order of their bytes. -/
def documented : List Opcode := [
  ⟨0x00, .stacked .brk, .implicit, 7⟩,
  ⟨0x01, .read .ora, .memory .indirectX, 6⟩,
  ⟨0x05, .read .ora, .memory .zeroPage, 3⟩,
  ⟨0x06, .modify (.shift .asl), .memory .zeroPage, 5⟩,
  ⟨0x08, .stacked .php, .implicit, 3⟩,
  ⟨0x09, .read .ora, .memory .immediate, 2⟩,
  ⟨0x0A, .modify (.shift .asl), .accumulator, 2⟩,
  ⟨0x0D, .read .ora, .memory .absolute, 4⟩,
  ⟨0x0E, .modify (.shift .asl), .memory .absolute, 6⟩,
  ⟨0x10, .branch .bpl, .relative, 2⟩,
  ⟨0x11, .read .ora, .memory .indirectY, 5⟩,
  ⟨0x15, .read .ora, .memory .zeroPageX, 4⟩,
  ⟨0x16, .modify (.shift .asl), .memory .zeroPageX, 6⟩,
  ⟨0x18, .implied .clc, .implicit, 2⟩,
  ⟨0x19, .read .ora, .memory .absoluteY, 4⟩,
  ⟨0x1D, .read .ora, .memory .absoluteX, 4⟩,
  ⟨0x1E, .modify (.shift .asl), .memory .absoluteX, 7⟩,
  ⟨0x20, .jsr, .memory .absolute, 6⟩,
  ⟨0x21, .read .and, .memory .indirectX, 6⟩,
  ⟨0x24, .read .bit, .memory .zeroPage, 3⟩,
  ⟨0x25, .read .and, .memory .zeroPage, 3⟩,
  ⟨0x26, .modify (.shift .rol), .memory .zeroPage, 5⟩,
  ⟨0x28, .stacked .plp, .implicit, 4⟩,
  ⟨0x29, .read .and, .memory .immediate, 2⟩,
  ⟨0x2A, .modify (.shift .rol), .accumulator, 2⟩,
  ⟨0x2C, .read .bit, .memory .absolute, 4⟩,
  ⟨0x2D, .read .and, .memory .absolute, 4⟩,
  ⟨0x2E, .modify (.shift .rol), .memory .absolute, 6⟩,
  ⟨0x30, .branch .bmi, .relative, 2⟩,
  ⟨0x31, .read .and, .memory .indirectY, 5⟩,
  ⟨0x35, .read .and, .memory .zeroPageX, 4⟩,
  ⟨0x36, .modify (.shift .rol), .memory .zeroPageX, 6⟩,
  ⟨0x38, .implied .sec, .implicit, 2⟩,
  ⟨0x39, .read .and, .memory .absoluteY, 4⟩,
  ⟨0x3D, .read .and, .memory .absoluteX, 4⟩,
  ⟨0x3E, .modify (.shift .rol), .memory .absoluteX, 7⟩,
  ⟨0x40, .stacked .rti, .implicit, 6⟩,
  ⟨0x41, .read .eor, .memory .indirectX, 6⟩,
  ⟨0x45, .read .eor, .memory .zeroPage, 3⟩,
  ⟨0x46, .modify (.shift .lsr), .memory .zeroPage, 5⟩,
  ⟨0x48, .stacked .pha, .implicit, 3⟩,
  ⟨0x49, .read .eor, .memory .immediate, 2⟩,
  ⟨0x4A, .modify (.shift .lsr), .accumulator, 2⟩,
  ⟨0x4C, .jmp, .memory .absolute, 3⟩,
  ⟨0x4D, .read .eor, .memory .absolute, 4⟩,
  ⟨0x4E, .modify (.shift .lsr), .memory .absolute, 6⟩,
  ⟨0x50, .branch .bvc, .relative, 2⟩,
  ⟨0x51, .read .eor, .memory .indirectY, 5⟩,
  ⟨0x55, .read .eor, .memory .zeroPageX, 4⟩,
  ⟨0x56, .modify (.shift .lsr), .memory .zeroPageX, 6⟩,
  ⟨0x58, .implied .cli, .implicit, 2⟩,
  ⟨0x59, .read .eor, .memory .absoluteY, 4⟩,
  ⟨0x5D, .read .eor, .memory .absoluteX, 4⟩,
  ⟨0x5E, .modify (.shift .lsr), .memory .absoluteX, 7⟩,
  ⟨0x60, .stacked .rts, .implicit, 6⟩,
  ⟨0x61, .read .adc, .memory .indirectX, 6⟩,
  ⟨0x65, .read .adc, .memory .zeroPage, 3⟩,
  ⟨0x66, .modify (.shift .ror), .memory .zeroPage, 5⟩,
  ⟨0x68, .stacked .pla, .implicit, 4⟩,
  ⟨0x69, .read .adc, .memory .immediate, 2⟩,
  ⟨0x6A, .modify (.shift .ror), .accumulator, 2⟩,
  ⟨0x6C, .jmp, .memory .indirect, 5⟩,
  ⟨0x6D, .read .adc, .memory .absolute, 4⟩,
  ⟨0x6E, .modify (.shift .ror), .memory .absolute, 6⟩,
  ⟨0x70, .branch .bvs, .relative, 2⟩,
  ⟨0x71, .read .adc, .memory .indirectY, 5⟩,
  ⟨0x75, .read .adc, .memory .zeroPageX, 4⟩,
  ⟨0x76, .modify (.shift .ror), .memory .zeroPageX, 6⟩,
  ⟨0x78, .implied .sei, .implicit, 2⟩,
  ⟨0x79, .read .adc, .memory .absoluteY, 4⟩,
  ⟨0x7D, .read .adc, .memory .absoluteX, 4⟩,
  ⟨0x7E, .modify (.shift .ror), .memory .absoluteX, 7⟩,
  ⟨0x81, .write .sta, .memory .indirectX, 6⟩,
  ⟨0x84, .write .sty, .memory .zeroPage, 3⟩,
  ⟨0x85, .write .sta, .memory .zeroPage, 3⟩,
  ⟨0x86, .write .stx, .memory .zeroPage, 3⟩,
  ⟨0x88, .implied .dey, .implicit, 2⟩,
  ⟨0x8A, .implied .txa, .implicit, 2⟩,
  ⟨0x8C, .write .sty, .memory .absolute, 4⟩,
  ⟨0x8D, .write .sta, .memory .absolute, 4⟩,
  ⟨0x8E, .write .stx, .memory .absolute, 4⟩,
  ⟨0x90, .branch .bcc, .relative, 2⟩,
  ⟨0x91, .write .sta, .memory .indirectY, 6⟩,
  ⟨0x94, .write .sty, .memory .zeroPageX, 4⟩,
  ⟨0x95, .write .sta, .memory .zeroPageX, 4⟩,
  ⟨0x96, .write .stx, .memory .zeroPageY, 4⟩,
  ⟨0x98, .implied .tya, .implicit, 2⟩,
  ⟨0x99, .write .sta, .memory .absoluteY, 5⟩,
  ⟨0x9A, .implied .txs, .implicit, 2⟩,
  ⟨0x9D, .write .sta, .memory .absoluteX, 5⟩,
  ⟨0xA0, .read .ldy, .memory .immediate, 2⟩,
  ⟨0xA1, .read .lda, .memory .indirectX, 6⟩,
  ⟨0xA2, .read .ldx, .memory .immediate, 2⟩,
  ⟨0xA4, .read .ldy, .memory .zeroPage, 3⟩,
  ⟨0xA5, .read .lda, .memory .zeroPage, 3⟩,
  ⟨0xA6, .read .ldx, .memory .zeroPage, 3⟩,
  ⟨0xA8, .implied .tay, .implicit, 2⟩,
  ⟨0xA9, .read .lda, .memory .immediate, 2⟩,
  ⟨0xAA, .implied .tax, .implicit, 2⟩,
  ⟨0xAC, .read .ldy, .memory .absolute, 4⟩,
  ⟨0xAD, .read .lda, .memory .absolute, 4⟩,
  ⟨0xAE, .read .ldx, .memory .absolute, 4⟩,
  ⟨0xB0, .branch .bcs, .relative, 2⟩,
  ⟨0xB1, .read .lda, .memory .indirectY, 5⟩,
  ⟨0xB4, .read .ldy, .memory .zeroPageX, 4⟩,
  ⟨0xB5, .read .lda, .memory .zeroPageX, 4⟩,
  ⟨0xB6, .read .ldx, .memory .zeroPageY, 4⟩,
  ⟨0xB8, .implied .clv, .implicit, 2⟩,
  ⟨0xB9, .read .lda, .memory .absoluteY, 4⟩,
  ⟨0xBA, .implied .tsx, .implicit, 2⟩,
  ⟨0xBC, .read .ldy, .memory .absoluteX, 4⟩,
  ⟨0xBD, .read .lda, .memory .absoluteX, 4⟩,
  ⟨0xBE, .read .ldx, .memory .absoluteY, 4⟩,
  ⟨0xC0, .read .cpy, .memory .immediate, 2⟩,
  ⟨0xC1, .read .cmp, .memory .indirectX, 6⟩,
  ⟨0xC4, .read .cpy, .memory .zeroPage, 3⟩,
  ⟨0xC5, .read .cmp, .memory .zeroPage, 3⟩,
  ⟨0xC6, .modify .dec, .memory .zeroPage, 5⟩,
  ⟨0xC8, .implied .iny, .implicit, 2⟩,
  ⟨0xC9, .read .cmp, .memory .immediate, 2⟩,
  ⟨0xCA, .implied .dex, .implicit, 2⟩,
  ⟨0xCC, .read .cpy, .memory .absolute, 4⟩,
  ⟨0xCD, .read .cmp, .memory .absolute, 4⟩,
  ⟨0xCE, .modify .dec, .memory .absolute, 6⟩,
  ⟨0xD0, .branch .bne, .relative, 2⟩,
  ⟨0xD1, .read .cmp, .memory .indirectY, 5⟩,
  ⟨0xD5, .read .cmp, .memory .zeroPageX, 4⟩,
  ⟨0xD6, .modify .dec, .memory .zeroPageX, 6⟩,
  ⟨0xD8, .implied .cld, .implicit, 2⟩,
  ⟨0xD9, .read .cmp, .memory .absoluteY, 4⟩,
  ⟨0xDD, .read .cmp, .memory .absoluteX, 4⟩,
  ⟨0xDE, .modify .dec, .memory .absoluteX, 7⟩,
  ⟨0xE0, .read .cpx, .memory .immediate, 2⟩,
  ⟨0xE1, .read .sbc, .memory .indirectX, 6⟩,
  ⟨0xE4, .read .cpx, .memory .zeroPage, 3⟩,
  ⟨0xE5, .read .sbc, .memory .zeroPage, 3⟩,
  ⟨0xE6, .modify .inc, .memory .zeroPage, 5⟩,
  ⟨0xE8, .implied .inx, .implicit, 2⟩,
  ⟨0xE9, .read .sbc, .memory .immediate, 2⟩,
  ⟨0xEA, .implied .nop, .implicit, 2⟩,
  ⟨0xEC, .read .cpx, .memory .absolute, 4⟩,
  ⟨0xED, .read .sbc, .memory .absolute, 4⟩,
  ⟨0xEE, .modify .inc, .memory .absolute, 6⟩,
  ⟨0xF0, .branch .beq, .relative, 2⟩,
  ⟨0xF1, .read .sbc, .memory .indirectY, 5⟩,
  ⟨0xF5, .read .sbc, .memory .zeroPageX, 4⟩,
  ⟨0xF6, .modify .inc, .memory .zeroPageX, 6⟩,
  ⟨0xF8, .implied .sed, .implicit, 2⟩,
  ⟨0xF9, .read .sbc, .memory .absoluteY, 4⟩,
  ⟨0xFD, .read .sbc, .memory .absoluteX, 4⟩,
  ⟨0xFE, .modify .inc, .memory .absoluteX, 7⟩]

/-- Length in bytes: the opcode and its operand. -/
def size (o : Opcode) : Nat := 1 + o.mode.operandBytes

theorem size_pos (o : Opcode) : 0 < o.size := by
  rw [size]
  omega

theorem size_le_three (o : Opcode) : o.size ≤ 3 := by
  have hoperand := o.mode.operandBytes_le_two
  rw [size]
  omega

/-- The row for a byte, if the byte is a documented opcode. -/
def ofByte? (b : UInt8) : Option Opcode := documented.find? fun o => o.byte == b

/-- The rows whose mnemonic has the given name. -/
def withMnemonic (name : String) : List Opcode :=
  documented.filter fun o => o.mnemonic.name == name

/-- The operation of a row. A row that pairs a mnemonic with a mode that it does not have counts as
NOP here; there is none in the table. -/
def operation (o : Opcode) : Operation := (o.mnemonic.operation? o.mode).getD (.implied .nop)

/-! ## What looking up gives -/

theorem mem_documented_of_ofByte? {b : UInt8} {o : Opcode} (h : ofByte? b = some o) :
    o ∈ documented :=
  List.mem_of_find?_eq_some h

theorem byte_of_ofByte? {b : UInt8} {o : Opcode} (h : ofByte? b = some o) : o.byte = b := by
  simpa using List.find?_some h

theorem two_le_cycles {b : UInt8} {o : Opcode} (h : ofByte? b = some o) : 2 ≤ o.cycles := by
  have all : ∀ o ∈ documented, 2 ≤ o.cycles := by decide +kernel
  exact all o (mem_documented_of_ofByte? h)

/-! ## Rows as operations -/

/-- **Every row of the table is an operation.** -/
theorem operation?_eq_some {o : Opcode} (h : o ∈ documented) :
    o.mnemonic.operation? o.mode = some o.operation := by
  have all : ∀ o ∈ documented, o.mnemonic.operation? o.mode = some o.operation := by
    decide +kernel
  exact all o h

theorem mnemonic_operation {o : Opcode} (h : o ∈ documented) :
    o.operation.mnemonic = o.mnemonic :=
  (Mnemonic.operation?_eq_some_iff.mp (operation?_eq_some h)).1.symm

theorem mode_operation {o : Opcode} (h : o ∈ documented) : o.operation.mode = o.mode :=
  (Mnemonic.operation?_eq_some_iff.mp (operation?_eq_some h)).2.symm

theorem size_operation {o : Opcode} (h : o ∈ documented) : o.operation.size = o.size := by
  rw [Operation.size, mode_operation h, size]

/-- The branches have one mode. -/
theorem operation_of_branch {o : Opcode} (h : o ∈ documented) {b : Branch}
    (hb : o.mnemonic = .branch b) : o.operation = .branch b := by
  have hm : o.operation.mnemonic = .branch b := (mnemonic_operation h).trans hb
  cases ho : o.operation with
  | branch b' =>
    rw [ho] at hm
    cases hm
    rfl
  | _ =>
    rw [ho] at hm
    cases hm

end Opcode

end Nmos6502
