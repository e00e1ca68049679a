import Nmos6502.Monitor
import Nmos6502.Proofs.Flow

/-!
# Addresses in numbers

The resolver works on bytes and words, and what wraps where is in the types: an index is added to a
byte or to a word, and a pointer is read from one page or across two. This module says the same in
numbers. `Place.denoted` takes the program counter, the index registers, the operand and the
bytes in memory as natural numbers, and every place at which something wraps is a remainder in it.

The operand in it is the one that the listing shows for an instruction of that mode, one byte or two
behind the program counter. So a reader of a listing who knows the registers and the memory can work
out the address, and it is the one that the instruction uses.

## What is read

The formula also shows which bytes an address depends on. Those of the zero-page modes come from the
operand and from page 0 alone, whatever the index registers hold. Reading leaves no trace on a bus,
so this is said of two machines: if they agree in the operand, in the index registers and in page 0,
then they agree in the address, and the rest of the memory may be anything.

## Main definitions

* `Bus.byteAt`, `Cpu.operandNumber` — bytes and operands in numbers
* `Place.denoted` — the address of a place, in numbers

## Main results

* `Cpu.toNat_address` — the resolver follows the formula
* `Cpu.address_congr` — what an address in page 0, or through a pointer there, depends on
* `Cpu.effective_address_denotes_operand` — all of it, for every machine and every mode
-/

universe u v

namespace Nmos6502

/-! ## Bytes in numbers -/

/-- The byte at an address, both in numbers. -/
def Bus.byteAt {β : Type u} [Bus β] (bus : β) (n : Nat) : Nat :=
  (Bus.read bus (UInt16.ofNat n)).toNat

namespace Bus

variable {β : Type u} [Bus β] (bus : β)

theorem byteAt_toNat (a : UInt16) : byteAt bus a.toNat = (read bus a).toNat := by
  rw [byteAt, UInt16.ofNat_toNat]

theorem byteAt_add_mod (a : UInt16) (k : Nat) :
    byteAt bus ((a.toNat + k) % 65536) = (read bus (a + UInt16.ofNat k)).toNat := by
  rw [← toNat_add_ofNat, byteAt_toNat]

theorem toNat_readWord (a : UInt16) :
    (readWord bus a).toNat = byteAt bus a.toNat + 256 * byteAt bus ((a.toNat + 1) % 65536) := by
  have hsecond : byteAt bus ((a.toNat + 1) % 65536) = (read bus (a + 1)).toNat :=
    byteAt_add_mod bus a 1
  rw [readWord, toNat_word, hsecond, byteAt_toNat]
  omega

/-- The second byte of a word in a page is in the same 256 bytes. -/
theorem toNat_readWordInPage (a : UInt16) :
    (readWordInPage bus a).toNat = byteAt bus a.toNat +
      256 * byteAt bus (256 * (a.toNat / 256) + (a.toNat % 256 + 1) % 256) := by
  have hnext : 256 * (a.toNat / 256) + (a.toNat % 256 + 1) % 256 = (nextInPage a).toNat := by
    rw [toNat_nextInPage, Nat.mul_comm]
  rw [readWordInPage, toNat_word, hnext, byteAt_toNat, byteAt_toNat]
  omega

/-- In page 0 that is the next byte modulo 256. -/
theorem toNat_readWordInPage_zero (b : UInt8) :
    (readWordInPage bus b.toUInt16).toNat =
      byteAt bus b.toNat + 256 * byteAt bus ((b.toNat + 1) % 256) := by
  have hb := b.toNat_lt
  have hpage : 256 * (b.toNat / 256) + (b.toNat % 256 + 1) % 256 = (b.toNat + 1) % 256 := by omega
  rw [toNat_readWordInPage, UInt8.toNat_toUInt16, hpage]

end Bus

/-! ## The formula -/

namespace Place

/-- The address that a place denotes, in numbers: from the bytes in memory, the program counter, the
index registers and the operand. -/
def denoted (fetch : Nat → Nat) (pc x y operand : Nat) : Place → Nat
  | immediate => (pc + 1) % 65536
  | zeroPage => operand
  | zeroPageX => (operand + x) % 256
  | zeroPageY => (operand + y) % 256
  | absolute => operand
  | absoluteX => (operand + x) % 65536
  | absoluteY => (operand + y) % 65536
  | indirect =>
    fetch operand + 256 * fetch (256 * (operand / 256) + (operand % 256 + 1) % 256)
  | indirectX => fetch ((operand + x) % 256) + 256 * fetch (((operand + x) % 256 + 1) % 256)
  | indirectY => (fetch operand + 256 * fetch ((operand + 1) % 256) + y) % 65536

/-- The modes that stay in page 0, or go through a pointer there. -/
def OnPageZero : Place → Prop
  | zeroPage | zeroPageX | zeroPageY | indirectX | indirectY => True
  | _ => False

/-- A formula of these modes asks for bytes of page 0 only. -/
theorem denoted_congr {p : Place} (hp : p.OnPageZero) {fetch fetch' : Nat → Nat}
    (h : ∀ n < 256, fetch n = fetch' n) {operand : Nat} (hoperand : operand < 256)
    (pc pc' x y : Nat) :
    p.denoted fetch pc x y operand = p.denoted fetch' pc' x y operand := by
  cases p with
  | zeroPage | zeroPageX | zeroPageY => rfl
  | indirectX =>
    have hlow : (operand + x) % 256 < 256 := Nat.mod_lt _ (by omega)
    have hhigh : ((operand + x) % 256 + 1) % 256 < 256 := Nat.mod_lt _ (by omega)
    rw [denoted, denoted, h _ hlow, h _ hhigh]
  | indirectY =>
    have hhigh : (operand + 1) % 256 < 256 := Nat.mod_lt _ (by omega)
    rw [denoted, denoted, h _ hoperand, h _ hhigh]
  | immediate | absolute | absoluteX | absoluteY | indirect => exact hp.elim

end Place

namespace Cpu

variable {β : Type u} [Bus β] {γ : Type v} [Bus γ]

/-! ## The operand -/

/-- The operand of `count` bytes behind the opcode at the program counter: one byte, or a word with
its low byte first. -/
def operandNumber (c : Cpu β) (count : Nat) : Nat :=
  let next := Bus.byteAt c.bus ((c.regs.pc.toNat + 1) % 65536)
  match count with
  | 1 => next
  | 2 => next + 256 * Bus.byteAt c.bus ((c.regs.pc.toNat + 2) % 65536)
  | _ => 0

theorem toNat_operandByte (c : Cpu β) :
    (Bus.read c.bus (c.regs.pc + 1)).toNat = c.operandNumber 1 :=
  (Bus.byteAt_add_mod c.bus c.regs.pc 1).symm

theorem operandNumber_one_lt (c : Cpu β) : c.operandNumber 1 < 256 := by
  rw [← toNat_operandByte]
  exact UInt8.toNat_lt _

theorem toNat_operandWord (c : Cpu β) :
    (Bus.readWord c.bus (c.regs.pc + 1)).toNat = c.operandNumber 2 := by
  have hfirst : (c.regs.pc + 1).toNat = (c.regs.pc.toNat + 1) % 65536 := UInt16.toNat_add ..
  have hsecond : ((c.regs.pc.toNat + 1) % 65536 + 1) % 65536 = (c.regs.pc.toNat + 2) % 65536 := by
    omega
  rw [Bus.toNat_readWord, hfirst, hsecond]
  rfl

/-- The operand that the listing shows for the instruction at the program counter. -/
theorem toNat_operand_line {c : Cpu β} {o : Opcode} (ho : c.opcode? = some o) :
    c.line.operand.toNat = c.operandNumber o.mode.operandBytes := by
  rw [line_of_opcode ho, Line.operand]
  have hcount := o.mode.operandBytes_le_two
  generalize o.mode.operandBytes = count at hcount ⊢
  rcases count with _ | _ | _ | count
  · rfl
  · rw [Line.operandAt, UInt8.toNat_toUInt16]
    exact c.toNat_operandByte
  · exact c.toNat_operandWord
  · omega

/-! ## The resolver follows the formula -/

/-- **The resolver follows the formula**, in every mode that denotes an address. -/
theorem toNat_address (c : Cpu β) (p : Place) :
    (c.address p).toNat = p.denoted (Bus.byteAt c.bus) c.regs.pc.toNat c.regs.x.toNat
      c.regs.y.toNat (c.operandNumber p.operandBytes) := by
  have hbyte := c.toNat_operandByte
  have hword := c.toNat_operandWord
  cases p with
  | immediate => exact UInt16.toNat_add ..
  | zeroPage => exact hbyte
  | zeroPageX | zeroPageY =>
    simp only [address, Place.denoted, Place.operandBytes, UInt8.toNat_toUInt16,
      UInt8.toNat_add, hbyte]
  | absolute => exact hword
  | absoluteX | absoluteY =>
    simp only [address, Place.denoted, Place.operandBytes, UInt16.toNat_add,
      UInt8.toNat_toUInt16, hword]
  | indirect =>
    simp only [address, Place.denoted, Place.operandBytes, Bus.toNat_readWordInPage, hword]
  | indirectX =>
    simp only [address, Place.denoted, Place.operandBytes, Bus.toNat_readWordInPage_zero,
      UInt8.toNat_add, hbyte]
  | indirectY =>
    simp only [address, Place.denoted, Place.operandBytes, UInt16.toNat_add,
      UInt8.toNat_toUInt16, Bus.toNat_readWordInPage_zero, hbyte]

/-- **What an address depends on.** In the modes of page 0 two machines resolve to the same address
if they agree in the operand, in the index registers and in the bytes of page 0. -/
theorem address_congr {c : Cpu β} {d : Cpu γ} {p : Place} (hp : p.OnPageZero)
    (hoperand : c.operandNumber 1 = d.operandNumber 1) (hx : c.regs.x = d.regs.x)
    (hy : c.regs.y = d.regs.y)
    (hpage : ∀ n < 256, Bus.byteAt c.bus n = Bus.byteAt d.bus n) : c.address p = d.address p := by
  have hcount : p.operandBytes = 1 := by
    cases p with
    | zeroPage | zeroPageX | zeroPageY | indirectX | indirectY => rfl
    | immediate | absolute | absoluteX | absoluteY | indirect => exact hp.elim
  refine UInt16.toNat_inj.mp ?_
  rw [toNat_address, toNat_address, hcount, hoperand, hx, hy]
  exact Place.denoted_congr hp hpage d.operandNumber_one_lt _ _ _ _

/-- The modes of page 0 that go through no pointer resolve to an address there. -/
theorem address_lt_of_zeroPage (c : Cpu β) {p : Place}
    (hp : p ∈ [Place.zeroPage, .zeroPageX, .zeroPageY]) : (c.address p).toNat < 256 := by
  simp only [List.mem_cons, List.not_mem_nil, or_false] at hp
  rw [toNat_address]
  rcases hp with rfl | rfl | rfl
  · exact c.operandNumber_one_lt
  · exact Nat.mod_lt _ (by omega)
  · exact Nat.mod_lt _ (by omega)

/-! ## The address that an instruction uses -/

/-- **Addresses are what the operands denote.** For every machine, and in whatever mode, asking for
an address changes nothing. In the ten modes that denote one it is given, and in numbers it follows
the formula from the operand behind the program counter; in the other three the mode is the fault.
The indexed modes of page 0 stay there, and what they and the pointers of page 0 resolve to depends
on the operand, the index registers and page 0 alone. And whenever the machine is about to execute
an instruction with an operand in memory, it executes it at the address that the formula gives for
the operand in the line of the listing. -/
theorem effective_address_denotes_operand (c : Cpu β) :
    (∀ m, c.exec (.effectiveAddress m) = (.address (c.effectiveAddress m), c)) ∧
    (∀ p, (c.effectiveAddress (.memory p)).map UInt16.toNat =
      .ok (p.denoted (Bus.byteAt c.bus) c.regs.pc.toNat c.regs.x.toNat c.regs.y.toNat
        (c.operandNumber p.operandBytes))) ∧
    (∀ m ∈ [Mode.implicit, .accumulator, .relative],
      c.effectiveAddress m = .error (.unresolvable m)) ∧
    (∀ p ∈ [Place.zeroPage, .zeroPageX, .zeroPageY],
      ∃ a, c.effectiveAddress (.memory p) = .ok a ∧ a.toNat < 256) ∧
    (∀ p : Place, p.OnPageZero → ∀ d : Cpu γ,
      c.operandNumber 1 = d.operandNumber 1 → c.regs.x = d.regs.x → c.regs.y = d.regs.y →
      (∀ n < 256, Bus.byteAt c.bus n = Bus.byteAt d.bus n) →
        c.effectiveAddress (.memory p) = d.effectiveAddress (.memory p)) ∧
    ∀ o, c.opcode? = some o →
      c.line.operand.toNat = c.operandNumber o.mode.operandBytes ∧
      (c.due? = none → ∀ p, o.mode = .memory p →
        ∃ a, a.toNat = p.denoted (Bus.byteAt c.bus) c.regs.pc.toNat c.regs.x.toNat
            c.regs.y.toNat c.line.operand.toNat ∧
          c.step.2.regs = (c.executeAt a o.operation).regs ∧
          c.step.2.bus = (c.executeAt a o.operation).bus) := by
  refine ⟨fun m => rfl, ?_, ?_, ?_, ?_, ?_⟩
  · intro p
    exact congrArg Except.ok (c.toNat_address p)
  · simp only [List.forall_mem_cons, List.not_mem_nil, false_implies, implies_true, and_true]
    exact ⟨rfl, rfl, rfl⟩
  · intro p hp
    exact ⟨c.address p, rfl, c.address_lt_of_zeroPage hp⟩
  · intro p hp d hoperand hx hy hpage
    exact congrArg Except.ok (address_congr hp hoperand hx hy hpage)
  · intro o ho
    refine ⟨toNat_operand_line ho, ?_⟩
    intro hd p hm
    have hmode : o.operation.mode = .memory p := by
      rw [Opcode.mode_operation (documented_of_opcode ho), hm]
    refine ⟨c.address p, ?_, ?_⟩
    · rw [toNat_address, toNat_operand_line ho, hm]
      rfl
    · rw [step_of_not_due hd, fetch_of_opcode ho, regs_performed, bus_performed,
        execute_eq_executeAt c hmode]
      exact ⟨rfl, rfl⟩

/-- A machine at an instruction in the last byte of the address space. Its operand is in the first
byte, which is also the second byte of the pointer. -/
def atLastByte : Cpu Ram :=
  let c : Cpu Ram := .powerOn {} {} (.holding [(0xFFFC, 0xFF), (0xFFFD, 0xFF), (0xFFFF, 0xB1),
    (0x0000, 0xFF), (0x00FF, 0x34), (0x0004, 0x42)])
  { c with regs := { c.regs with y := 0xD0 } }

/-- The pointer is read across the end of page 0, and the index goes on across the end of the
address space. -/
theorem effective_address_denotes_operand_atLastByte :
    atLastByte.line.text = "LDA ($FF),Y" ∧ atLastByte.step.2.regs.a = 0x42 := by
  obtain ⟨-, -, -, -, -, hused⟩ := effective_address_denotes_operand (γ := Ram) atLastByte
  obtain ⟨-, hstep⟩ := hused ⟨0xB1, .read .lda, .memory .indirectY, 5⟩ rfl
  obtain ⟨a, ha, hregs, -⟩ := hstep rfl .indirectY rfl
  have haddress : a = 0x0004 := UInt16.toNat_inj.mp ha
  refine ⟨by decide, ?_⟩
  rw [hregs, haddress]
  rfl

end Cpu

end Nmos6502
