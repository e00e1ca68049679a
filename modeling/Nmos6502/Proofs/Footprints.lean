import Nmos6502.Proofs.Marks
import Nmos6502.Proofs.Status

/-!
# What an instruction may change

Programs rely on what an instruction leaves alone as much as on what it does. CMP between two ADC of
a sum must not touch V, and STA must not touch any flag. The tables here say for each instruction
which flags it may change, which register it is for, and where it moves the stack pointer. They are
written down apart from the instructions and by family, as a programmer's reference has them. This
module shows that no step goes beyond them.

An instruction with a result sets Z and N for it. So the tables also say where the result is left:
in a register, or on the bus. After the step the two describe what was left there, and not what was
there before. The byte on the bus is taken from the record of the calls that the step makes, since a
device need not keep it.

## Main definitions

* `Footprint`, `Destination` — the flags that may change, and the place of a result
* `Operation.footprint`, `Operation.pointer` — the tables
* `Cpu.footprint`, `Cpu.pointer` — those of the next step

## Main results

* `Reader.keeps`, `Implied.keeps`, `Cpu.keeps_execute` — an instruction stays in its footprint
* `Reader.leaves`, `Implied.leaves`, `Cpu.leaves_execute` — a result and the flags for it
* `Cpu.pointer_execute` — the stack pointer after an instruction
* `Cpu.step_stays_in_footprint` — every step, on every machine
-/

universe u

namespace Nmos6502

/-! ## The tables -/

/-- Where an instruction leaves its result. -/
inductive Destination
  | a | x | y
  /-- On the bus, where the operand came from. -/
  | memory
  deriving DecidableEq, Repr

/-- What an instruction may change, the two counters of place apart. -/
structure Footprint where
  /-- The flags that it may change. -/
  flags : List UInt8
  /-- Where it leaves a result that Z and N are set for. No other register is touched. -/
  result? : Option Destination
  deriving DecidableEq, Repr

namespace Footprint

open Status

/-- Flags only. -/
def touching (flags : List UInt8) : Footprint := ⟨flags, none⟩

/-- A result with Z and N, and maybe further flags. -/
def leaving (d : Destination) (further : List UInt8) : Footprint :=
  ⟨negative :: zero :: further, some d⟩

end Footprint

open Footprint Status

/-- Loads, AND, ORA and EOR leave a result, ADC and SBC one with C and V besides. CMP, CPX, CPY and
BIT leave flags only. -/
def Reader.footprint : Reader → Footprint
  | lda | and | ora | eor => leaving .a []
  | ldx => leaving .x []
  | ldy => leaving .y []
  | adc | sbc => leaving .a [overflow, carry]
  | cmp | cpx | cpy => touching [negative, zero, carry]
  | bit => touching [negative, overflow, zero]

/-- INC and DEC leave C alone; a shift does not. -/
def Modifier.footprint : Modifier → Footprint
  | inc | dec => leaving .memory []
  | shift _ => leaving .memory [carry]

/-- All transfers but TXS leave a result. -/
def Implied.footprint : Implied → Footprint
  | txa | tya => leaving .a []
  | tax | tsx | inx | dex => leaving .x []
  | tay | iny | dey => leaving .y []
  | clc | sec => touching [carry]
  | cli | sei => touching [interruptDisable]
  | cld | sed => touching [decimal]
  | clv => touching [overflow]
  | txs | nop => touching []

/-- PLP and RTI may change every flag. -/
def Stacked.footprint : Stacked → Footprint
  | pla => leaving .a []
  | plp | rti => touching Status.flags
  | brk => touching [interruptDisable]
  | pha | php | rts => touching []

namespace Operation

def footprint : Operation → Footprint
  | read r _ => r.footprint
  | modify m _ => m.footprint
  | shift _ => leaving .a [carry]
  | implied i => i.footprint
  | stacked s => s.footprint
  | write _ _ | branch _ | jump _ | call => touching []

/-- The stack pointer after an instruction. -/
def pointer (r : Registers) : Operation → UInt8
  | implied .txs => r.x
  | stacked .pha | stacked .php => r.s - 1
  | stacked .pla | stacked .plp => r.s + 1
  | call => r.s - 2
  | stacked .rts => r.s + 2
  | stacked .brk => r.s - 3
  | stacked .rti => r.s + 3
  | _ => r.s

end Operation

/-! ## Registers and results -/

/-- Other registers that stay in a footprint. -/
structure Footprint.Keeps (f : Footprint) (r r' : Registers) : Prop where
  p : Status.SameBut f.flags r.p r'.p
  a : f.result? ≠ some .a → r'.a = r.a
  x : f.result? ≠ some .x → r'.x = r.x
  y : f.result? ≠ some .y → r'.y = r.y

/-- The result, in a register or as the one write to the bus. -/
def Destination.Holds (d : Destination) (r : Registers) (writes : List (UInt16 × UInt8))
    (value : UInt8) : Prop :=
  match d with
  | a => r.a = value
  | x => r.x = value
  | y => r.y = value
  | memory => ∃ address, writes = [(address, value)]

/-- If the footprint has a result, it was left there, and Z and N describe it. -/
def Footprint.Leaves (f : Footprint) (r : Registers) (writes : List (UInt16 × UInt8)) : Prop :=
  ∀ d, f.result? = some d → ∃ value, d.Holds r writes value ∧ r.p.Describes value

namespace Footprint

variable {f : Footprint} {r r' : Registers} {writes : List (UInt16 × UInt8)}

/-- Flags only, so the registers of data stay. -/
theorem keeps_touching {flags : List UInt8} (hp : Status.SameBut flags r.p r'.p)
    (ha : r'.a = r.a) (hx : r'.x = r.x) (hy : r'.y = r.y) : (touching flags).Keeps r r' :=
  ⟨hp, fun _ => ha, fun _ => hx, fun _ => hy⟩

/-- Moving on changes neither flags nor registers of data. -/
theorem Keeps.advance (h : f.Keeps r r') (n : Nat) : f.Keeps r (r'.advance n) :=
  ⟨h.p, h.a, h.x, h.y⟩

/-- Flags only, so there is nothing to describe. -/
theorem leaves_touching (flags : List UInt8) : (touching flags).Leaves r writes := nofun

theorem leaves_leaving {d : Destination} {value : UInt8} (further : List UInt8)
    (hd : d.Holds r writes value) (hp : r.p.Describes value) :
    (leaving d further).Leaves r writes := by
  rintro _ ⟨⟩
  exact ⟨value, hd, hp⟩

end Footprint

/-! ## Loading a register -/

namespace Registers

variable (r : Registers) (value : UInt8)

theorem keeps_loadA : (leaving .a []).Keeps r (r.loadA value) where
  p := (SameBut.refl _ r.p).setZN (by decide) (by decide) value
  a := fun h => absurd rfl h
  x := fun _ => rfl
  y := fun _ => rfl

theorem keeps_loadX : (leaving .x []).Keeps r (r.loadX value) where
  p := (SameBut.refl _ r.p).setZN (by decide) (by decide) value
  a := fun _ => rfl
  x := fun h => absurd rfl h
  y := fun _ => rfl

theorem keeps_loadY : (leaving .y []).Keeps r (r.loadY value) where
  p := (SameBut.refl _ r.p).setZN (by decide) (by decide) value
  a := fun _ => rfl
  x := fun _ => rfl
  y := fun h => absurd rfl h

/-- A sum or a difference may change C and V besides. -/
theorem keeps_take (t : Total) : (leaving .a [overflow, carry]).Keeps r (r.take t) := by
  have hcarry := (SameBut.refl (leaving .a [overflow, carry]).flags r.p).set carry (by decide)
    (by decide) t.carry
  have hoverflow := hcarry.set overflow (by decide) (by decide) t.overflow
  exact ⟨hoverflow.setZN (by decide) (by decide) t.value, fun h => absurd rfl h, fun _ => rfl,
    fun _ => rfl⟩

theorem keeps_compare (register : UInt8) :
    (touching [negative, zero, carry]).Keeps r (r.compare register value) := by
  have hcarry := (SameBut.refl [negative, zero, carry] r.p).set carry (by decide) (by decide)
    (value ≤ register)
  exact keeps_touching (hcarry.setZN (by decide) (by decide) (register - value)) rfl rfl rfl

theorem keeps_testBits :
    (touching [negative, overflow, zero]).Keeps r (r.testBits value) := by
  have hzero := (SameBut.refl [negative, overflow, zero] r.p).set zero (by decide) (by decide)
    (r.a &&& value == 0)
  have hnegative := hzero.set negative (by decide) (by decide) (0x80 ≤ value)
  have hoverflow := hnegative.set overflow (by decide) (by decide) (value &&& 0x40 != 0)
  exact keeps_touching hoverflow rfl rfl rfl

end Registers

/-! ## One family after the other -/

/-- **A reader stays in its footprint.** -/
theorem Reader.keeps (rd : Reader) (r : Registers) (value : UInt8) :
    rd.footprint.Keeps r (rd.apply r value) := by
  cases rd with
  | lda => exact r.keeps_loadA value
  | and => exact r.keeps_loadA (r.a &&& value)
  | ora => exact r.keeps_loadA (r.a ||| value)
  | eor => exact r.keeps_loadA (r.a ^^^ value)
  | ldx => exact r.keeps_loadX value
  | ldy => exact r.keeps_loadY value
  | adc | sbc => exact r.keeps_take _
  | cmp => exact r.keeps_compare value r.a
  | cpx => exact r.keeps_compare value r.x
  | cpy => exact r.keeps_compare value r.y
  | bit => exact r.keeps_testBits value

/-- **A reader leaves what its flags describe.** -/
theorem Reader.leaves (rd : Reader) (r : Registers) (value : UInt8) (n : Nat)
    (writes : List (UInt16 × UInt8)) :
    rd.footprint.Leaves ((rd.apply r value).advance n) writes := by
  cases rd with
  | lda | and | ora | eor | ldx | ldy | adc | sbc =>
    exact leaves_leaving _ rfl (describes_setZN _ _)
  | cmp | cpx | cpy | bit => exact leaves_touching _

/-- A byte that is changed brings the flags of its footprint with it. -/
theorem Modifier.sameBut (m : Modifier) (p : Status) (b : UInt8) :
    SameBut m.footprint.flags p (m.status p b) := by
  cases m with
  | inc => exact (SameBut.refl _ p).setZN (by decide) (by decide) (b + 1)
  | dec => exact (SameBut.refl _ p).setZN (by decide) (by decide) (b - 1)
  | shift s =>
    have hcarry := (SameBut.refl (leaving .memory [carry]).flags p).set carry (by decide)
      (by decide) (s.carryOut b)
    exact hcarry.setZN (by decide) (by decide) (s.value (p.contains carry) b)

/-- The flags are those of the changed byte. -/
theorem Modifier.describes (m : Modifier) (p : Status) (b : UInt8) :
    (m.status p b).Describes (m.value p b) := by
  cases m <;> exact describes_setZN _ _

/-- **An instruction that uses registers alone stays in its footprint.** -/
theorem Implied.keeps (i : Implied) (r : Registers) : i.footprint.Keeps r (i.apply r) := by
  cases i with
  | txa => exact r.keeps_loadA r.x
  | tya => exact r.keeps_loadA r.y
  | tax => exact r.keeps_loadX r.a
  | tsx => exact r.keeps_loadX r.s
  | inx => exact r.keeps_loadX (r.x + 1)
  | dex => exact r.keeps_loadX (r.x - 1)
  | tay => exact r.keeps_loadY r.a
  | iny => exact r.keeps_loadY (r.y + 1)
  | dey => exact r.keeps_loadY (r.y - 1)
  | clc | sec | cli | sei | cld | sed | clv =>
    exact keeps_touching ((SameBut.refl _ r.p).set _ (by decide) (by decide) _) rfl rfl rfl
  | txs | nop => exact keeps_touching (SameBut.refl _ r.p) rfl rfl rfl

/-- **An instruction that uses registers alone leaves what its flags describe.** -/
theorem Implied.leaves (i : Implied) (r : Registers) (n : Nat) (writes : List (UInt16 × UInt8)) :
    i.footprint.Leaves ((i.apply r).advance n) writes := by
  cases i with
  | txa | tya | tax | tsx | inx | dex | tay | iny | dey =>
    exact leaves_leaving _ rfl (describes_setZN _ _)
  | clc | sec | cli | sei | cld | sed | clv | txs | nop => exact leaves_touching _

namespace Cpu

variable {β : Type u} [Bus β]

/-! ## Executing -/

/-- Serving an interrupt may change the flag I and touches no other flag and no register of data. -/
theorem keeps_serve (c : Cpu β) (i : Interrupt) :
    (touching [interruptDisable]).Keeps c.regs (c.serve i).regs :=
  keeps_touching ((SameBut.refl _ c.regs.p).set _ (by decide) (by decide) true) rfl rfl rfl

theorem pointer_serve (c : Cpu β) (i : Interrupt) : (c.serve i).regs.s = c.regs.s - 3 := by
  show c.regs.s - 1 - 1 - 1 = c.regs.s - 3
  grind

theorem keeps_executeStacked (c : Cpu β) (s : Stacked) :
    s.footprint.Keeps c.regs (c.executeStacked s 1).regs := by
  cases s with
  | pla =>
    have h := c.regs.keeps_loadA c.pull.1
    exact ⟨h.p, h.a, h.x, h.y⟩
  | plp | rti => exact keeps_touching (SameBut.all _ _) rfl rfl rfl
  | brk => exact c.keeps_serve .brk
  | pha | php | rts => exact keeps_touching (SameBut.refl _ c.regs.p) rfl rfl rfl

/-- **An execution stays in its footprint.** -/
theorem keeps_execute (c : Cpu β) (o : Operation) :
    o.footprint.Keeps c.regs (c.execute o).regs := by
  cases o with
  | read r p => exact (r.keeps c.regs (Bus.read c.bus (c.address p))).advance _
  | modify m p =>
    have hp : SameBut m.footprint.flags c.regs.p (c.execute (.modify m p)).regs.p :=
      m.sameBut c.regs.p (Bus.read c.bus (c.address p))
    exact ⟨hp, fun _ => rfl, fun _ => rfl, fun _ => rfl⟩
  | shift s =>
    have hp : SameBut (Operation.shift s).footprint.flags c.regs.p (c.execute (.shift s)).regs.p :=
      (Modifier.shift s).sameBut c.regs.p c.regs.a
    exact ⟨hp, fun h => absurd rfl h, fun _ => rfl, fun _ => rfl⟩
  | implied i => exact (i.keeps c.regs).advance _
  | stacked s => exact c.keeps_executeStacked s
  | write _ _ | branch _ | jump _ | call =>
    exact keeps_touching (SameBut.refl _ c.regs.p) rfl rfl rfl

/-- **An execution leaves what its flags describe**, in a register or as what it writes. -/
theorem leaves_execute (c : Cpu β) (o : Operation) :
    o.footprint.Leaves (c.execute o).regs (c.operationWrites o) := by
  cases o with
  | read r p => exact r.leaves c.regs _ _ _
  | modify m p =>
    have hp := m.describes c.regs.p (Bus.read c.bus (c.address p))
    cases m <;> exact leaves_leaving _ ⟨c.address p, rfl⟩ hp
  | shift s => exact leaves_leaving _ rfl ((Modifier.shift s).describes c.regs.p c.regs.a)
  | implied i => exact i.leaves c.regs _ _
  | stacked s =>
    cases s with
    | pla => exact leaves_leaving _ rfl (describes_setZN _ _)
    | plp | rti | brk | pha | php | rts => exact leaves_touching _
  | write _ _ | branch _ | jump _ | call => exact leaves_touching _

/-- **The stack pointer after an execution.** -/
theorem pointer_execute (c : Cpu β) (o : Operation) :
    (c.execute o).regs.s = o.pointer c.regs := by
  cases o with
  | read r p => cases r <;> rfl
  | implied i => cases i <;> rfl
  | call =>
    show c.regs.s - 1 - 1 = c.regs.s - 2
    grind
  | stacked s =>
    cases s with
    | rts =>
      show c.regs.s + 1 + 1 = c.regs.s + 2
      grind
    | rti =>
      show c.regs.s + 1 + 1 + 1 = c.regs.s + 3
      grind
    | brk => exact c.pointer_serve .brk
    | pha | php | pla | plp => rfl
  | write _ _ | modify _ _ | shift _ | branch _ | jump _ => rfl

/-! ## Stepping -/

/-- What the next step may change. -/
def footprint (c : Cpu β) : Footprint :=
  match c.due?, c.opcode? with
  | some _, _ => touching [interruptDisable]
  | none, some o => o.operation.footprint
  | none, none => touching []

/-- Where the next step moves the stack pointer. -/
def pointer (c : Cpu β) : UInt8 :=
  match c.due?, c.opcode? with
  | some _, _ => c.regs.s - 3
  | none, some o => o.operation.pointer c.regs
  | none, none => c.regs.s

theorem footprint_of_opcode {c : Cpu β} {o : Opcode} (h : c.due? = none)
    (ho : c.opcode? = some o) : c.footprint = o.operation.footprint := by
  rw [footprint, h, ho]

theorem pointer_of_opcode {c : Cpu β} {o : Opcode} (h : c.due? = none)
    (ho : c.opcode? = some o) : c.pointer = o.operation.pointer c.regs := by
  rw [pointer, h, ho]

/-- A step stays in its footprint, leaves what its flags describe, and moves the stack pointer as
the table says. -/
theorem keeps_step (c : Cpu β) :
    c.footprint.Keeps c.regs c.step.2.regs ∧ c.footprint.Leaves c.step.2.regs c.stepWrites ∧
      c.step.2.regs.s = c.pointer := by
  refine c.step_cases ?_ ?_ ?_ ?_
  · intro i rest hd
    rw [footprint, pointer, hd]
    exact ⟨keeps_serve { c with pending := rest } i, leaves_touching _,
      pointer_serve { c with pending := rest } i⟩
  · intro o hd ho
    rw [footprint_of_opcode hd ho, pointer_of_opcode hd ho, stepWrites_of_opcode hd ho,
      regs_performed]
    exact ⟨c.keeps_execute o.operation, c.leaves_execute o.operation,
      c.pointer_execute o.operation⟩
  · intro hd ho _
    rw [footprint, pointer, hd, ho]
    exact ⟨keeps_touching (SameBut.refl _ c.regs.p) rfl rfl rfl, leaves_touching _, rfl⟩
  · intro hd ho _
    rw [footprint, pointer, hd, ho]
    exact ⟨keeps_touching (SameBut.refl _ c.regs.p) rfl rfl rfl, leaves_touching _, rfl⟩

/-- What waits for service waits on, unless the step serves a request. -/
theorem pending_step {c : Cpu β} (h : c.due? = none) : c.step.2.pending = c.pending := by
  rw [step_of_not_due h]
  exact c.pending_fetch

/-- **No step goes beyond its footprint.** For every machine on every bus, whatever the next step
does. Flags that the table does not list keep their values, and accumulator and index registers
change only if the result is left there. If there is a result, the flags afterwards describe it: it
is what the register then holds, or the byte in the one write that the step makes to the bus. The
stack pointer moves as the table says. Settings and the carry of runs stay, and what waits for
service stays unless the step serves a request. -/
theorem step_stays_in_footprint (c : Cpu β) :
    (∀ mask ∈ Status.flags, mask ∉ c.footprint.flags →
      c.step.2.regs.p.contains mask = c.regs.p.contains mask) ∧
    (∀ d, c.footprint.result? = some d →
      ∃ value, d.Holds c.step.2.regs c.recorded.step.2.bus.calls value ∧
        c.step.2.regs.p.Describes value) ∧
    (c.footprint.result? ≠ some .a → c.step.2.regs.a = c.regs.a) ∧
    (c.footprint.result? ≠ some .x → c.step.2.regs.x = c.regs.x) ∧
    (c.footprint.result? ≠ some .y → c.step.2.regs.y = c.regs.y) ∧
    c.step.2.regs.s = c.pointer ∧
    c.step.2.config = c.config ∧
    c.step.2.carry = c.carry ∧
    (c.due? = none → c.step.2.pending = c.pending) := by
  obtain ⟨hkeeps, hleaves, hpointer⟩ := c.keeps_step
  rw [calls_step]
  exact ⟨hkeeps.p, hleaves, hkeeps.a, hkeeps.x, hkeeps.y, hpointer, c.config_step, c.carry_step,
    pending_step⟩

/-- A machine at an INC of a byte of memory that holds 255. -/
def atCountUp : Cpu Ram :=
  .powerOn {} {} (.holding [(0x0000, 0xE6), (0x0001, 0x10), (0x0010, 0xFF)])

/-- The flags are those of 0, which is written, and not of 255, which was read. -/
theorem step_stays_in_footprint_atCountUp :
    atCountUp.footprint.result? = some .memory ∧
      atCountUp.recorded.step.2.bus.calls = [(0x0010, 0)] ∧
      atCountUp.step.2.regs.p.contains Status.zero = true ∧
      atCountUp.step.2.regs.p.contains Status.negative = false := by
  obtain ⟨-, hresult, -⟩ := step_stays_in_footprint atCountUp
  obtain ⟨value, ⟨address, hwrites⟩, hzero, hnegative⟩ := hresult .memory rfl
  have hcalls : atCountUp.recorded.step.2.bus.calls = [(0x0010, 0)] := atCountUp.calls_step
  rw [hcalls] at hwrites
  cases hwrites
  exact ⟨rfl, hcalls, hzero.mpr rfl, hnegative⟩

end Cpu

end Nmos6502
