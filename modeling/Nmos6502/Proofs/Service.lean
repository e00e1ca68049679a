import Nmos6502.Proofs.Addresses
import Nmos6502.Proofs.Calls
import Nmos6502.Proofs.Session

/-!
# Service and return

Serving an interrupt saves the return address and the status in three slots of the stack page and
takes two things away from the program: the flag I, which it sets, and the program counter, which
goes to the vector. RTI takes the same three slots from the stack and gives both back. This module
says exactly what a service writes and changes, for IRQ, NMI and BRK, and that an RTI which finds
the three bytes where they were puts everything back.

What lies between does not matter. The handler may run for any number of steps, be interrupted
itself, or move the stack away and back. All that RTI needs is the stack page, the stack pointer and
the three bytes. So the machine that returns is any that is `Cpu.ReadyFor` RTI, however it came
about.

## The break marker

The status that BRK pushes has bit 4 set, and no status of a machine has. That the status comes back
exactly needs that it was well-formed. Every reachable machine has a well-formed status. A machine
read back from stored data may have any.

## In numbers

The bytes and addresses of a service are told in numbers, apart from the functions that the machine
uses: the return address is PC, or PC + 2 modulo 65536 for BRK; it goes high byte first to the slot
at the stack pointer and to the one below; the status follows, with bit 5, and for BRK with bit 4.
IRQ and BRK go through the IRQ vector and NMI through its own.

## Main definitions

* `Cpu.serviceWrites`, `Cpu.serviceNumbers` — what a service writes, and the same in numbers
* `Cpu.returnNumber`, `Cpu.pushedNumber`, `Cpu.vectorNumber` — its parts, and the vector

## Main results

* `Cpu.bus_serve_eq`, `Cpu.regs_serve`, `Cpu.calls_of_interrupt` — a service
* `Cpu.inNumbers_serviceWrites`, `Cpu.forall_mem_calls_of_interrupt` — its writes, in numbers
* `Cpu.step_return` — RTI
* `Cpu.service_transparent` — a service and the RTI that ends it
-/

universe u

namespace Nmos6502

namespace Cpu

variable {β : Type u} [Bus β]

/-! ## A service -/

/-- The writes of serving an interrupt, from the stack pointer down: the return address, high byte
first, and the pushed status. -/
def serviceWrites (c : Cpu β) (i : Interrupt) : List (UInt16 × UInt8) :=
  [(c.stackAddress c.regs.s, highByte (c.returnAddress i)),
    (c.stackAddress (c.regs.s - 1), lowByte (c.returnAddress i)),
    (c.stackAddress (c.regs.s - 2), c.regs.p.pushed (i == .brk))]

theorem bus_serve_eq (c : Cpu β) (i : Interrupt) :
    (c.serve i).bus = Bus.writes c.bus (c.serviceWrites i) := by
  have hs : c.regs.s - 1 - 1 = c.regs.s - 2 := by grind
  rw [serviceWrites, ← hs]
  rfl

theorem regs_serve {c : Cpu β} (h : c.regs.p.WellFormed) (i : Interrupt) :
    (c.serve i).regs = { c.regs with
      s := c.regs.s - 3
      p := ⟨c.regs.p.bits ||| Status.interruptDisable⟩
      pc := Bus.readWord (c.serve i).bus (c.config.vector (serviceVector i)) } := by
  have hs : c.regs.s - 1 - 1 - 1 = c.regs.s - 3 := by grind
  rw [← Status.set_interruptDisable h, ← hs]
  rfl

/-- A step that serves an interrupt does to the registers and to the bus what the service does. -/
theorem step_of_interrupt {c : Cpu β} {i : Interrupt} (h : c.interrupt? = some i) :
    c.step.2.regs = (c.serve i).regs ∧ c.step.2.bus = (c.serve i).bus := by
  cases hd : c.due? with
  | some due =>
    rw [interrupt?_of_due hd] at h
    cases h
    rw [step_of_due hd]
    exact ⟨rfl, rfl⟩
  | none =>
    rw [interrupt?_of_not_due hd, Option.ite_none_right_eq_some] at h
    obtain ⟨hb, ⟨⟩⟩ := h
    rw [step_of_not_due hd, fetch_of_opcode (opcode?_of_brk hb)]
    exact ⟨rfl, rfl⟩

/-- The calls of a step that serves an interrupt. -/
theorem calls_of_interrupt {c : Cpu β} {i : Interrupt} (h : c.interrupt? = some i) :
    c.recorded.step.2.bus.calls = c.serviceWrites i := by
  obtain ⟨-, hbus⟩ := step_of_interrupt (c := c.recorded) h
  rw [hbus, bus_serve_eq, Recorder.writes_eq]
  exact List.nil_append _

/-- What holds of the calls of a service holds of each of the three. -/
theorem forall_mem_calls_of_interrupt {c : Cpu β} {i : Interrupt} (h : c.interrupt? = some i)
    {P : UInt16 × UInt8 → Prop} :
    (∀ w ∈ c.recorded.step.2.bus.calls, P w) ↔
      P (c.stackAddress c.regs.s, highByte (c.returnAddress i)) ∧
        P (c.stackAddress (c.regs.s - 1), lowByte (c.returnAddress i)) ∧
          P (c.stackAddress (c.regs.s - 2), c.regs.p.pushed (i == .brk)) := by
  rw [calls_of_interrupt h]
  simp only [serviceWrites, List.forall_mem_cons, List.not_mem_nil, false_implies, implies_true,
    and_true]

/-! ## A service in numbers -/

/-- Setting one bit of a number. -/
theorem testBit_or_two_pow (m n k : Nat) :
    (m ||| 2 ^ n).testBit k = if k = n then true else m.testBit k := by
  rw [Nat.testBit_or, Nat.testBit_two_pow]
  by_cases hk : k = n
  · rw [if_pos hk, decide_eq_true hk.symm, Bool.or_true]
  · rw [if_neg hk, decide_eq_false (Ne.symm hk), Bool.or_false]

section Numbers

variable (c : Cpu β)

omit [Bus β]

/-- Where RTI goes on, in numbers: at PC after an IRQ or an NMI, and at PC + 2 after BRK. -/
def returnNumber : Interrupt → Nat
  | .hardware _ => c.regs.pc.toNat
  | .brk => (c.regs.pc.toNat + 2) % 65536

/-- The status that is pushed, in numbers: bit 5 is 32, and for BRK there is also bit 4, 16. -/
def pushedNumber : Interrupt → Nat
  | .hardware _ => c.regs.p.bits.toNat ||| 32
  | .brk => c.regs.p.bits.toNat ||| 48

/-- The address where the address of the handler is found, in numbers. -/
def vectorNumber : Interrupt → Nat
  | .hardware .nmi => c.config.nmiVector.toNat
  | .hardware .irq | .brk => c.config.irqVector.toNat

/-- The writes of a service, in numbers: the return address, high byte first, and the status. -/
def serviceNumbers (i : Interrupt) : List (Nat × Nat) :=
  [(c.slotBelow 0, c.returnNumber i / 256),
    (c.slotBelow 1, c.returnNumber i % 256),
    (c.slotBelow 2, c.pushedNumber i)]

theorem toNat_returnAddress (i : Interrupt) : (c.returnAddress i).toNat = c.returnNumber i := by
  cases i with
  | hardware r => rfl
  | brk => exact UInt16.toNat_add ..

theorem toNat_pushed (i : Interrupt) : (c.regs.p.pushed (i == .brk)).toNat = c.pushedNumber i := by
  cases i with
  | hardware r => exact UInt8.toNat_or ..
  | brk =>
    show (c.regs.p.bits ||| Status.breakMark ||| Status.reserved).toNat = _
    rw [UInt8.toNat_or, UInt8.toNat_or, Nat.or_assoc]
    rfl

theorem toNat_vector (i : Interrupt) :
    (c.config.vector (serviceVector i)).toNat = c.vectorNumber i := by
  rcases i with (_ | _) | _ <;> rfl

/-- **The writes of a service, in numbers.** -/
theorem inNumbers_serviceWrites (i : Interrupt) :
    (c.serviceWrites i).map inNumbers = c.serviceNumbers i := by
  have hword := c.inNumbers_pushWord (c.returnAddress i)
  rw [toNat_returnAddress] at hword
  have hthird : (c.stackAddress (c.regs.s - 2)).toNat = c.slotBelow 2 := c.toNat_stackAddress 2
  have hstatus : inNumbers (c.stackAddress (c.regs.s - 2), c.regs.p.pushed (i == .brk)) =
      (c.slotBelow 2, c.pushedNumber i) := by
    rw [inNumbers, hthird, toNat_pushed]
  show [_, _] ++ [_] = [_, _] ++ [_]
  rw [hword, hstatus]

/-- The pushed status, bit by bit: bit 5 is set, bit 4 is set for BRK, and the others are the flags
of the machine. -/
theorem testBit_pushedNumber {c : Cpu β} (h : c.regs.p.WellFormed) (i : Interrupt) (k : Nat) :
    (c.pushedNumber i).testBit k =
      if k = 5 then true
      else if k = 4 then decide (i = .brk)
      else c.regs.p.bits.toNat.testBit k := by
  have hbreak : c.regs.p.bits.toNat.testBit 4 = false := Status.testBit_four_of_wellFormed h
  cases i with
  | hardware r =>
    have hmask : c.pushedNumber (.hardware r) = c.regs.p.bits.toNat ||| 2 ^ 5 := rfl
    rw [hmask, testBit_or_two_pow, decide_eq_false nofun]
    by_cases h4 : k = 4
    · rw [h4, hbreak, if_pos rfl]
    · rw [if_neg h4]
  | brk =>
    have hmask : c.pushedNumber .brk = c.regs.p.bits.toNat ||| 2 ^ 4 ||| 2 ^ 5 :=
      (Nat.or_assoc c.regs.p.bits.toNat (2 ^ 4) (2 ^ 5)).symm
    rw [hmask, testBit_or_two_pow, testBit_or_two_pow, decide_eq_true rfl]

end Numbers

/-! ## RTI -/

/-- **RTI.** It pulls the status and then the program counter from the three slots above the stack
pointer. -/
theorem step_return {d : Cpu β} (hd : d.due? = none) (hb : Bus.read d.bus d.regs.pc = 0x40) :
    d.step.1 = .ok (.instruction 0x40 6) ∧
      d.step.2.bus = d.bus ∧
      d.step.2.regs = { d.regs with
        p := Status.ofByte (Bus.read d.bus (d.stackAddress (d.regs.s + 1)))
        pc := word (Bus.read d.bus (d.stackAddress (d.regs.s + 2)))
          (Bus.read d.bus (d.stackAddress (d.regs.s + 3)))
        s := d.regs.s + 3 } := by
  have ho : d.opcode? = some ⟨0x40, .stacked .rti, .implicit, 6⟩ := by
    rw [opcode?, hb]
    rfl
  have h2 : d.regs.s + 1 + 1 = d.regs.s + 2 := by grind
  have h3 : d.regs.s + 1 + 1 + 1 = d.regs.s + 3 := by grind
  rw [step_of_not_due hd, fetch_of_opcode ho, ← h2, ← h3]
  exact ⟨rfl, rfl, rfl⟩

/-! ## A service and its RTI -/

/-- RTI puts back what the service took. -/
theorem step_eq_of_service {c d : Cpu β} {i : Interrupt} (h : ReadyFor 0x40 3 c d)
    (hc : c.regs.p.WellFormed) (hi : c.interrupt? = some i)
    (kept : ∀ w ∈ c.recorded.step.2.bus.calls, Bus.read c.step.2.bus w.1 = w.2) :
    d.step.1 = .ok (.instruction 0x40 6) ∧
      d.step.2.bus = d.bus ∧
      d.step.2.regs = { d.regs with
        p := c.regs.p
        pc := c.returnAddress i
        s := c.regs.s } := by
  obtain ⟨hreport, hbus, hregs⟩ := step_return h.due h.opcode
  obtain ⟨hhigh, hlow, hstatus⟩ := (forall_mem_calls_of_interrupt hi).mp (h.read_slots kept)
  have h1 : d.stackAddress (d.regs.s + 1) = c.stackAddress (c.regs.s - 2) := h.stackAddress_up rfl
  have h2 : d.stackAddress (d.regs.s + 2) = c.stackAddress (c.regs.s - 1) := h.stackAddress_up rfl
  have h3 : d.stackAddress (d.regs.s + 3) = c.stackAddress c.regs.s := h.stackAddress_top
  have hp : Status.ofByte (c.regs.p.pushed (i == .brk)) = c.regs.p := Status.ofByte_pushed hc _
  have hs : d.regs.s + 3 = c.regs.s := by
    rw [h.pointer_eq]
    grind
  refine ⟨hreport, hbus, ?_⟩
  rw [hregs, h1, h2, h3, hstatus, hlow, hhigh, hp, hs, word_lowByte_highByte]

/-- **A service and its RTI.** When a step of a reachable machine serves an IRQ, an NMI or a BRK, it
makes three calls to the bus. They go to the slot of the stack pointer and to the two below, and
they carry the high and the low byte of the return address and the status, with bit 5 set and bit 4
set for BRK alone. In the status of the machine only bit 2 may change, and it is set. A, X and Y
stay, the stack pointer moves down by three, and PC is the word that the bus then shows at the
vector of the interrupt.

If the bus keeps the three bytes, then whatever machine is ready to return, however it came about,
gets back the return address, the status and the stack pointer by RTI. -/
theorem service_transparent {c : Cpu β} (hc : Reachable c) {i : Interrupt}
    (hi : c.interrupt? = some i) :
    (c.step.1 = .ok (.interrupt i 7) ∧
      c.step.2.bus = Bus.writes c.bus c.recorded.step.2.bus.calls ∧
      c.recorded.step.2.bus.calls.map inNumbers = [
        (c.slotBelow 0, c.returnNumber i / 256),
        (c.slotBelow 1, c.returnNumber i % 256),
        (c.slotBelow 2, c.pushedNumber i)] ∧
      (∀ k, (c.pushedNumber i).testBit k =
        if k = 5 then true
        else if k = 4 then decide (i = .brk)
        else c.regs.p.bits.toNat.testBit k) ∧
      (∀ k, c.step.2.regs.p.bits.toNat.testBit k =
        if k = 2 then true else c.regs.p.bits.toNat.testBit k) ∧
      c.step.2.regs.a = c.regs.a ∧ c.step.2.regs.x = c.regs.x ∧ c.step.2.regs.y = c.regs.y ∧
      c.step.2.regs.s.toNat = (c.regs.s.toNat + 253) % 256 ∧
      c.step.2.regs.pc.toNat = Bus.byteAt c.step.2.bus (c.vectorNumber i) +
        256 * Bus.byteAt c.step.2.bus ((c.vectorNumber i + 1) % 65536)) ∧
    ((∀ w ∈ c.recorded.step.2.bus.calls, Bus.read c.step.2.bus w.1 = w.2) →
      ∀ d, ReadyFor 0x40 3 c d →
        d.step.1 = .ok (.instruction 0x40 6) ∧
          d.step.2.bus = d.bus ∧
          d.step.2.regs.pc.toNat = c.returnNumber i ∧
          d.step.2.regs.p = c.regs.p ∧
          d.step.2.regs.s = c.regs.s ∧
          d.step.2.regs.a = d.regs.a ∧ d.step.2.regs.x = d.regs.x ∧
          d.step.2.regs.y = d.regs.y) := by
  have hp : c.regs.p.WellFormed := hc.wellFormed
  obtain ⟨hregs, hbus⟩ := step_of_interrupt hi
  have hcalls := calls_of_interrupt hi
  have hserved := regs_serve hp i
  rw [← hregs, ← hbus] at hserved
  refine ⟨⟨?_, ?_, ?_, testBit_pushedNumber hp i, ?_, ?_, ?_, ?_, ?_, ?_⟩, fun kept d hd => ?_⟩
  · exact (c.step_eq_interrupt_iff i _).mpr ⟨hi, rfl⟩
  · rw [hcalls, hbus, bus_serve_eq]
  · rw [hcalls, inNumbers_serviceWrites]
    rfl
  · intro k
    rw [hserved]
    show (c.regs.p.bits ||| Status.interruptDisable).toNat.testBit k = _
    rw [UInt8.toNat_or]
    exact testBit_or_two_pow _ 2 k
  · rw [hserved]
  · rw [hserved]
  · rw [hserved]
  · rw [hserved, UInt8.toNat_sub]
    exact congrArg (· % 256) (Nat.add_comm ..)
  · rw [hserved, Bus.toNat_readWord, toNat_vector]
  · obtain ⟨hreport, hkeeps, hback⟩ := step_eq_of_service hd hp hi kept
    rw [hback]
    exact ⟨hreport, hkeeps, c.toNat_returnAddress i, rfl, rfl, rfl, rfl, rfl⟩

/-- A machine at a BRK, with its stack in page 2 and two slots above the end of the page. The
handler of IRQ and BRK pushes A and pulls it again, and that of NMI returns at once. -/
def atBreak : Cpu Ram :=
  let c : Cpu Ram := .powerOn { stackPage := 0x02 } {} (.holding [
    (0xFFFA, 0x10), (0xFFFB, 0x90), (0xFFFD, 0x80), (0xFFFF, 0x90),
    (0x9000, 0x48), (0x9001, 0x68), (0x9002, 0x40), (0x9010, 0x40)])
  ((c.exec (.setStackPointer 0x01)).2.exec (.setFlag Status.interruptDisable false)).2

theorem reachable_atBreak : Reachable atBreak :=
  ((Reachable.powerOn _ _ _).exec (.setStackPointer 0x01)).exec
    (.setFlag Status.interruptDisable false)

/-- BRK, IRQ and NMI at the same place, each up to the RTI that ends it. -/
theorem service_transparent_atBreak :
    (atBreak.recorded.step.2.bus.calls.map inNumbers =
        [(0x0201, 0x80), (0x0200, 0x02), (0x02FF, 0x30)] ∧
      atBreak.step.2.regs.pc.toNat = 0x9000 ∧
      atBreak.step.2.step.2.step.2.step.2.regs.pc.toNat = 0x8002 ∧
      atBreak.step.2.step.2.step.2.step.2.regs.p = atBreak.regs.p) ∧
    ((atBreak.raise .irq).recorded.step.2.bus.calls.map inNumbers =
        [(0x0201, 0x80), (0x0200, 0x00), (0x02FF, 0x20)] ∧
      (atBreak.raise .irq).step.2.regs.pc.toNat = 0x9000 ∧
      (atBreak.raise .irq).step.2.step.2.step.2.step.2.regs.pc.toNat = 0x8000) ∧
    (atBreak.raise .nmi).recorded.step.2.bus.calls.map inNumbers =
        [(0x0201, 0x80), (0x0200, 0x00), (0x02FF, 0x20)] ∧
      (atBreak.raise .nmi).step.2.regs.pc.toNat = 0x9010 ∧
      (atBreak.raise .nmi).step.2.step.2.regs.pc.toNat = 0x8000 := by
  have hirq : Reachable (atBreak.raise .irq) := reachable_atBreak.exec (.raise .irq)
  have hnmi : Reachable (atBreak.raise .nmi) := reachable_atBreak.exec (.raise .nmi)
  refine ⟨?_, ?_, ?_⟩
  · have hi : atBreak.interrupt? = some .brk := rfl
    have ready : ReadyFor 0x40 3 atBreak atBreak.step.2.step.2.step.2 :=
      ⟨rfl, rfl, rfl, rfl, (forall_mem_calls_of_interrupt hi).mpr ⟨rfl, rfl, rfl⟩⟩
    obtain ⟨⟨-, -, hcalls, -, -, -, -, -, -, hpc⟩, hreturn⟩ :=
      service_transparent reachable_atBreak hi
    obtain ⟨-, -, hback, hp, -⟩ :=
      hreturn ((forall_mem_calls_of_interrupt hi).mpr ⟨rfl, rfl, rfl⟩) _ ready
    exact ⟨hcalls, hpc, hback, hp⟩
  · have hi : (atBreak.raise .irq).interrupt? = some (.hardware .irq) := rfl
    have ready : ReadyFor 0x40 3 (atBreak.raise .irq) (atBreak.raise .irq).step.2.step.2.step.2 :=
      ⟨rfl, rfl, rfl, rfl, (forall_mem_calls_of_interrupt hi).mpr ⟨rfl, rfl, rfl⟩⟩
    obtain ⟨⟨-, -, hcalls, -, -, -, -, -, -, hpc⟩, hreturn⟩ := service_transparent hirq hi
    obtain ⟨-, -, hback, -⟩ :=
      hreturn ((forall_mem_calls_of_interrupt hi).mpr ⟨rfl, rfl, rfl⟩) _ ready
    exact ⟨hcalls, hpc, hback⟩
  · have hi : (atBreak.raise .nmi).interrupt? = some (.hardware .nmi) := rfl
    have ready : ReadyFor 0x40 3 (atBreak.raise .nmi) (atBreak.raise .nmi).step.2 :=
      ⟨rfl, rfl, rfl, rfl, (forall_mem_calls_of_interrupt hi).mpr ⟨rfl, rfl, rfl⟩⟩
    obtain ⟨⟨-, -, hcalls, -, -, -, -, -, -, hpc⟩, hreturn⟩ := service_transparent hnmi hi
    obtain ⟨-, -, hback, -⟩ :=
      hreturn ((forall_mem_calls_of_interrupt hi).mpr ⟨rfl, rfl, rfl⟩) _ ready
    exact ⟨hcalls, hpc, hback⟩

end Cpu

end Nmos6502
