/-!
# Addressing modes

An instruction names its operand in one of thirteen ways. Ten of them denote an address on the bus,
and only for those is there anything to resolve; the other three are an operand in the accumulator,
a branch displacement, and no operand at all. The split is in the types: a `Place` is a mode that
denotes an address, and a `Mode` is a place or one of the three others. An operation that works on
memory carries a `Place`, so that it cannot be given a mode without an address. A row of the opcode
table names a `Mode`, and there it can.

## Main definitions

* `Place`, `Mode`
* `Place.operandBytes`, `Mode.operandBytes` — how many bytes follow the opcode
* `Mode.all` — the thirteen modes, in the order of the tables
-/

namespace Nmos6502

/-- The addressing modes that denote an address on the bus. -/
inductive Place
  /-- The byte after the opcode itself. -/
  | immediate
  /-- An address in page 0. -/
  | zeroPage
  /-- An address in page 0 indexed by X, wrapping in the page. -/
  | zeroPageX
  /-- An address in page 0 indexed by Y, wrapping in the page. -/
  | zeroPageY
  /-- A full address. -/
  | absolute
  /-- A full address indexed by X. -/
  | absoluteX
  /-- A full address indexed by Y. -/
  | absoluteY
  /-- The word stored at a full address. -/
  | indirect
  /-- The word stored in page 0 at the operand plus X. -/
  | indirectX
  /-- The word stored in page 0 at the operand, indexed by Y. -/
  | indirectY
  deriving DecidableEq, Repr

/-- The thirteen addressing modes. -/
inductive Mode
  /-- No operand. -/
  | implicit
  /-- The operand is the accumulator. -/
  | accumulator
  /-- A signed displacement from the next instruction. -/
  | relative
  /-- The operand is at an address on the bus. -/
  | memory (p : Place)
  deriving DecidableEq, Repr

namespace Place

/-- Bytes that follow the opcode. -/
def operandBytes : Place → Nat
  | immediate | zeroPage | zeroPageX | zeroPageY | indirectX | indirectY => 1
  | absolute | absoluteX | absoluteY | indirect => 2

def name : Place → String
  | immediate => "Immediate"
  | zeroPage => "ZeroPage"
  | zeroPageX => "ZeroPageX"
  | zeroPageY => "ZeroPageY"
  | absolute => "Absolute"
  | absoluteX => "AbsoluteX"
  | absoluteY => "AbsoluteY"
  | indirect => "Indirect"
  | indirectX => "IndirectX"
  | indirectY => "IndirectY"

end Place

namespace Mode

/-- Bytes that follow the opcode. -/
def operandBytes : Mode → Nat
  | implicit | accumulator => 0
  | relative => 1
  | memory p => p.operandBytes

def name : Mode → String
  | implicit => "Implicit"
  | accumulator => "Accumulator"
  | relative => "Relative"
  | memory p => p.name

/-- All modes, in the order of the tables. -/
def all : List Mode :=
  [implicit, accumulator, memory .immediate, memory .zeroPage, memory .zeroPageX,
    memory .zeroPageY, relative, memory .absolute, memory .absoluteX, memory .absoluteY,
    memory .indirect, memory .indirectX, memory .indirectY]

theorem mem_all (m : Mode) : m ∈ all := by
  rcases m with _ | _ | _ | p
  · decide
  · decide
  · decide
  · cases p <;> decide

theorem operandBytes_le_two (m : Mode) : m.operandBytes ≤ 2 := by
  rcases m with _ | _ | _ | p
  · decide
  · decide
  · decide
  · cases p <;> decide

/-- The mode with the given name. -/
def ofName? (name : String) : Option Mode := all.find? fun m => m.name == name

end Mode

end Nmos6502
