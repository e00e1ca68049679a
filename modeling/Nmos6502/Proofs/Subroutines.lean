import Nmos6502.Proofs.Writes

/-!
# JSR and RTS

JSR leaves a note for RTS: two bytes in the stack page, with an address in them. It is not the
address where the program goes on. It is that of the last byte of JSR, and RTS adds the one that is
missing. So the two instructions are right only together, and this module says so: an RTS that finds
the note goes on behind the JSR, with the stack pointer that the JSR started from.

What the subroutine does in between does not matter, and nothing is assumed of it. It may run for
any number of steps, call others, be interrupted, or build a stack of its own and come back. The
machine that returns is any machine with the same stack page, with the stack pointer where JSR left
it, and with the two bytes of the note in their slots: one that is `Cpu.ReadyFor` RTS.

## Where JSR can get in its own way

The note may wrap in the stack page, and the address in it at the end of the address space. The
stack page may even be the one that JSR lies in, and then the note may be written over its operand.
That does no harm, because the operand is read first.

## Main definitions

* `Cpu.callFrame` — the note

## Main results

* `Cpu.step_call` — JSR
* `Cpu.step_resume` — RTS
* `Cpu.call_resumes_behind` — JSR and the RTS that ends the subroutine
-/

universe u

namespace Nmos6502

namespace Cpu

variable {β : Type u} [Bus β]

/-! ## JSR -/

/-- The writes of JSR, from the stack pointer down: the address of its last byte, high byte first.
-/
def callFrame (c : Cpu β) : List (UInt16 × UInt8) :=
  [(c.stackAddress c.regs.s, highByte (c.regs.pc + 2)),
    (c.stackAddress (c.regs.s - 1), lowByte (c.regs.pc + 2))]

theorem opcode?_of_call {c : Cpu β} (h : Bus.read c.bus c.regs.pc = 0x20) :
    c.opcode? = some ⟨0x20, .jsr, .memory .absolute, 6⟩ := by
  rw [opcode?, h]
  rfl

/-- The calls of a step that executes JSR. -/
theorem calls_of_call {c : Cpu β} (hd : c.due? = none) (hb : Bus.read c.bus c.regs.pc = 0x20) :
    c.recorded.step.2.bus.calls = c.callFrame := by
  rw [calls_step, stepWrites_of_opcode hd (opcode?_of_call hb)]
  rfl

/-- What holds of the calls of JSR holds of both. -/
theorem forall_mem_calls_of_call {c : Cpu β} (hd : c.due? = none)
    (hb : Bus.read c.bus c.regs.pc = 0x20) {P : UInt16 × UInt8 → Prop} :
    (∀ w ∈ c.recorded.step.2.bus.calls, P w) ↔
      P (c.stackAddress c.regs.s, highByte (c.regs.pc + 2)) ∧
        P (c.stackAddress (c.regs.s - 1), lowByte (c.regs.pc + 2)) := by
  rw [calls_of_call hd hb]
  simp only [callFrame, List.forall_mem_cons, List.not_mem_nil, false_implies, implies_true,
    and_true]

/-- **JSR** goes on at the operand that was there before its note was written. -/
theorem step_call {c : Cpu β} (hd : c.due? = none) (hb : Bus.read c.bus c.regs.pc = 0x20) :
    c.step.1 = .ok (.instruction 0x20 6) ∧
      c.step.2.regs = { c.regs with
        pc := Bus.readWord c.bus (c.regs.pc + 1)
        s := c.regs.s - 2 } := by
  obtain ⟨hreport, hregs⟩ := step_of_opcode hd (opcode?_of_call hb)
  have hpointer : c.regs.s - 1 - 1 = c.regs.s - 2 := by grind
  refine ⟨hreport, ?_⟩
  rw [hregs, ← hpointer]
  rfl

/-! ## RTS -/

/-- **RTS** takes an address from the two slots above the stack pointer, and goes on behind it. -/
theorem step_resume {d : Cpu β} (hd : d.due? = none) (hb : Bus.read d.bus d.regs.pc = 0x60) :
    d.step.1 = .ok (.instruction 0x60 6) ∧
      d.step.2.bus = d.bus ∧
      d.step.2.regs = { d.regs with
        pc := word (Bus.read d.bus (d.stackAddress (d.regs.s + 1)))
          (Bus.read d.bus (d.stackAddress (d.regs.s + 2))) + 1
        s := d.regs.s + 2 } := by
  have ho : d.opcode? = some ⟨0x60, .stacked .rts, .implicit, 6⟩ := by
    rw [opcode?, hb]
    rfl
  obtain ⟨hreport, hregs⟩ := step_of_opcode hd ho
  have hpointer : d.regs.s + 1 + 1 = d.regs.s + 2 := by grind
  refine ⟨hreport, ?_, ?_⟩
  · rw [bus_step, stepWrites_of_opcode hd ho]
    rfl
  · rw [hregs, ← hpointer]
    rfl

/-! ## JSR and its RTS -/

/-- RTS that finds the note of JSR goes on behind it. -/
theorem step_eq_of_call {c d : Cpu β} (h : ReadyFor 0x60 2 c d) (hd : c.due? = none)
    (hb : Bus.read c.bus c.regs.pc = 0x20)
    (kept : ∀ w ∈ c.recorded.step.2.bus.calls, Bus.read c.step.2.bus w.1 = w.2) :
    d.step.1 = .ok (.instruction 0x60 6) ∧
      d.step.2.bus = d.bus ∧
      d.step.2.regs = { d.regs with
        pc := c.regs.pc + 3
        s := c.regs.s } := by
  obtain ⟨hreport, hbus, hregs⟩ := step_resume h.due h.opcode
  obtain ⟨hhigh, hlow⟩ := (forall_mem_calls_of_call hd hb).mp (h.read_slots kept)
  have h1 : d.stackAddress (d.regs.s + 1) = c.stackAddress (c.regs.s - 1) := h.stackAddress_up rfl
  have h2 : d.stackAddress (d.regs.s + 2) = c.stackAddress c.regs.s := h.stackAddress_top
  have hpointer : d.regs.s + 2 = c.regs.s := by
    rw [h.pointer_eq]
    grind
  have hbehind : c.regs.pc + 2 + 1 = c.regs.pc + 3 := by grind
  refine ⟨hreport, hbus, ?_⟩
  rw [hregs, h1, h2, hlow, hhigh, hpointer, word_lowByte_highByte, hbehind]

/-- **JSR and its RTS.** On any bus and from any state, JSR goes on at the operand word that the bus
held before anything was written. It makes two calls to the bus, with the high and the low byte of
PC + 2, to the slot of the stack pointer and to the one below. The stack pointer moves down by two,
and A, X, Y and the status stay.

If the bus keeps the two bytes, then whatever machine is ready for RTS, however it came about, goes
on at PC + 3 with the stack pointer of the machine that called. RTS leaves A, X, Y, the status and
the bus as they are. -/
theorem call_resumes_behind {c : Cpu β} (hd : c.due? = none)
    (hb : Bus.read c.bus c.regs.pc = 0x20) :
    (c.step.1 = .ok (.instruction 0x20 6) ∧
      c.step.2.bus = Bus.writes c.bus c.recorded.step.2.bus.calls ∧
      c.recorded.step.2.bus.calls.map inNumbers = [
        (c.slotBelow 0, (c.regs.pc.toNat + 2) % 65536 / 256),
        (c.slotBelow 1, (c.regs.pc.toNat + 2) % 65536 % 256)] ∧
      c.step.2.regs.pc.toNat = Bus.byteAt c.bus ((c.regs.pc.toNat + 1) % 65536) +
        256 * Bus.byteAt c.bus ((c.regs.pc.toNat + 2) % 65536) ∧
      c.step.2.regs.s.toNat = (c.regs.s.toNat + 254) % 256 ∧
      c.step.2.regs.a = c.regs.a ∧ c.step.2.regs.x = c.regs.x ∧ c.step.2.regs.y = c.regs.y ∧
      c.step.2.regs.p = c.regs.p) ∧
    ((∀ w ∈ c.recorded.step.2.bus.calls, Bus.read c.step.2.bus w.1 = w.2) →
      ∀ d, ReadyFor 0x60 2 c d →
        d.step.1 = .ok (.instruction 0x60 6) ∧
          d.step.2.bus = d.bus ∧
          d.step.2.regs.pc.toNat = (c.regs.pc.toNat + 3) % 65536 ∧
          d.step.2.regs.s = c.regs.s ∧
          d.step.2.regs.a = d.regs.a ∧ d.step.2.regs.x = d.regs.x ∧
          d.step.2.regs.y = d.regs.y ∧ d.step.2.regs.p = d.regs.p) := by
  obtain ⟨hreport, hregs⟩ := step_call hd hb
  refine ⟨⟨hreport, ?_, ?_, ?_, ?_, ?_⟩, fun kept d hready => ?_⟩
  · rw [calls_step, bus_step]
  · have hback : (c.regs.pc + 2).toNat = (c.regs.pc.toNat + 2) % 65536 := UInt16.toNat_add ..
    rw [calls_of_call hd hb, ← hback]
    exact c.inNumbers_pushWord (c.regs.pc + 2)
  · rw [hregs]
    exact c.toNat_operandWord
  · rw [hregs, UInt8.toNat_sub]
    exact congrArg (· % 256) (Nat.add_comm ..)
  · rw [hregs]
    exact ⟨rfl, rfl, rfl, rfl⟩
  · obtain ⟨hreturned, hbus, hback⟩ := step_eq_of_call hready hd hb kept
    rw [hback]
    exact ⟨hreturned, hbus, UInt16.toNat_add .., rfl, rfl, rfl, rfl, rfl⟩

/-- A machine at a JSR in the last byte before its stack page, which is page 2. The note goes to the
first and the last byte of the page, and so its high byte over the operand. The subroutine calls
another, and there is a handler for NMI that returns at once. -/
def atPageEdge : Cpu Ram :=
  let c : Cpu Ram := .powerOn { stackPage := 0x02 } {} (.holding [
    (0xFFFA, 0x30), (0xFFFB, 0x90), (0xFFFC, 0xFF), (0xFFFD, 0x01),
    (0x01FF, 0x20), (0x0200, 0x12), (0x0201, 0x90),
    (0x9012, 0x20), (0x9013, 0x20), (0x9014, 0x90), (0x9015, 0x60),
    (0x9020, 0x60), (0x9030, 0x40)])
  { c with regs := { c.regs with s := 0x00 } }

/-- The machine at the end of the subroutine, after the inner one was interrupted. -/
def atPageEdgeReturn : Cpu Ram := (atPageEdge.step.2.step.2.raise .nmi).step.2.step.2.step.2

theorem call_resumes_behind_atPageEdge :
    atPageEdge.recorded.step.2.bus.calls.map inNumbers = [(0x0200, 0x02), (0x02FF, 0x01)] ∧
      atPageEdge.step.2.regs.pc.toNat = 0x9012 ∧
      ReadyFor 0x60 2 atPageEdge atPageEdgeReturn ∧ atPageEdgeReturn.regs.pc = 0x9015 ∧
      atPageEdgeReturn.step.2.regs.pc.toNat = 0x0202 ∧ atPageEdgeReturn.step.2.regs.s = 0x00 := by
  obtain ⟨⟨-, -, hcalls, hpc, -⟩, hreturn⟩ := call_resumes_behind (c := atPageEdge) rfl rfl
  have ready : ReadyFor 0x60 2 atPageEdge atPageEdgeReturn :=
    ⟨rfl, rfl, rfl, rfl, (forall_mem_calls_of_call rfl rfl).mpr ⟨rfl, rfl⟩⟩
  obtain ⟨-, -, hback, hpointer, -⟩ :=
    hreturn ((forall_mem_calls_of_call rfl rfl).mpr ⟨rfl, rfl⟩) atPageEdgeReturn ready
  exact ⟨hcalls, hpc, ready, rfl, hback, hpointer⟩

end Cpu

end Nmos6502
