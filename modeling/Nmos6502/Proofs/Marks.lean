import Nmos6502.Proofs.Ledger
import Nmos6502.Proofs.Writes

/-!
# What marks a status

The handlers of IRQ and of BRK start at the same address. What tells them apart is bit 4 of the
status on the stack, so that bit has to say how the status got there and nothing else. It does if no
status of the machine itself ever has it: PLP and RTI may pull any byte into the status, and whoever
works the machine from outside may set the status from any byte.

This module puts the two halves together. After any history the status of a machine has bit 5 set
and bit 4 clear. And from there on, whatever steps follow, a status that PHP or BRK pushes has both
bits set, and one that the service of an IRQ or an NMI pushes has bit 5 alone.

The pushed byte is taken from the record of the calls that the step makes to the bus, where a device
that ignores or alters a write cannot hide it.

## Main definitions

* `Cpu.SavesStatus` — the last write of a step is a marked copy of the status

## Main results

* `Cpu.savesStatus_of_interrupt`, `Cpu.savesStatus_of_php` — the ways to push a status
* `Cpu.status_marked_by_origin` — the two bits, after any history and in every push
-/

universe u

namespace Nmos6502

namespace Status

/-- The two fixed bits, one by one. -/
theorem wellFormed_iff {p : Status} :
    p.WellFormed ↔ p.bits &&& reserved = reserved ∧ p.bits &&& breakMark = 0 :=
  forall_byte (P := fun b => (⟨b⟩ : Status).WellFormed ↔ b &&& reserved = reserved ∧
    b &&& breakMark = 0) (by decide +kernel) p.bits

/-- The two bits of a pushed copy. -/
theorem pushed_and {p : Status} (h : p.WellFormed) (marked : Bool) :
    p.pushed marked &&& reserved = reserved ∧
      p.pushed marked &&& breakMark = if marked then breakMark else 0 :=
  forall_byte (P := fun b => ∀ marked, (⟨b⟩ : Status).WellFormed →
    (⟨b⟩ : Status).pushed marked &&& reserved = reserved ∧
      (⟨b⟩ : Status).pushed marked &&& breakMark = if marked then breakMark else 0)
    (by decide +kernel) p.bits marked h

end Status

namespace Cpu

variable {β : Type u} [Bus β]

/-! ## Pushing a status -/

/-- The last call that the next step makes to the bus writes a copy of the status to the stack page.
The copy has bit 5 set, and `mark` in the place of bit 4. -/
def SavesStatus (c : Cpu β) (mark : UInt8) : Prop :=
  ∃ slot copy, c.recorded.step.2.bus.calls.getLast? = some (c.stackAddress slot, copy) ∧
    Status.ofByte copy = c.regs.p ∧
    copy &&& Status.reserved = Status.reserved ∧
    copy &&& Status.breakMark = mark

/-- It is enough that the last call writes a pushed copy. -/
theorem savesStatus_of_calls {c : Cpu β} (h : c.regs.p.WellFormed) (marked : Bool) (slot : UInt8)
    (hlast : c.recorded.step.2.bus.calls.getLast? =
      some (c.stackAddress slot, c.regs.p.pushed marked)) :
    c.SavesStatus (if marked then Status.breakMark else 0) := by
  obtain ⟨hreserved, hmark⟩ := Status.pushed_and h marked
  exact ⟨slot, c.regs.p.pushed marked, hlast, Status.ofByte_pushed h marked, hreserved, hmark⟩

/-- **Serving an interrupt** pushes a status that is marked for BRK alone. -/
theorem savesStatus_of_interrupt {c : Cpu β} (h : c.regs.p.WellFormed) {i : Interrupt} {n : Nat}
    (hs : c.step.1 = .ok (.interrupt i n)) :
    c.SavesStatus (if i = .brk then Status.breakMark else 0) := by
  have hi : c.interrupt? = some i := ((c.step_eq_interrupt_iff i n).mp hs).1
  have hsaves := savesStatus_of_calls h (i == .brk) (c.regs.s - 2)
    (by rw [calls_of_interrupt hi]; rfl)
  simpa only [beq_iff_eq] using hsaves

/-- A step that reports the opcode 8 has executed PHP. -/
theorem due?_and_opcode?_of_php {c : Cpu β} {n : Nat} (hs : c.step.1 = .ok (.instruction 0x08 n)) :
    c.due? = none ∧ c.opcode? = some ⟨0x08, .stacked .php, .implicit, 3⟩ := by
  revert hs
  refine c.step_cases ?_ ?_ ?_ ?_
  · intro i rest _ hs
    cases hs
  · intro o hd ho hs
    have hreport : report o (c.cost o) = .instruction 0x08 n := Except.ok.inj hs
    rw [report] at hreport
    split at hreport
    · cases hreport
    · have hbyte : o.byte = 0x08 := (Step.instruction.inj hreport).1
      have hread : Bus.read c.bus c.regs.pc = 0x08 :=
        (Opcode.byte_of_ofByte? ho).symm.trans hbyte
      refine ⟨hd, ?_⟩
      rw [opcode?, hread]
      rfl
  · intro _ _ _ hs
    cases hs
  · intro _ _ _ hs
    cases hs

/-- **PHP** marks the status that it pushes. -/
theorem savesStatus_of_php {c : Cpu β} (h : c.regs.p.WellFormed) {n : Nat}
    (hs : c.step.1 = .ok (.instruction 0x08 n)) : c.SavesStatus Status.breakMark := by
  obtain ⟨hd, ho⟩ := due?_and_opcode?_of_php hs
  exact savesStatus_of_calls h true c.regs.s
    (by rw [calls_step, stepWrites_of_opcode hd ho]; rfl)

/-! ## After any history -/

/-- Stepping by hand leads from a reachable machine to reachable machines. -/
theorem Reachable.steps {c d : Cpu β} {ss : List Step} (hc : Reachable c) (h : c.Steps ss d) :
    Reachable d := by
  induction h with
  | nil c => exact hc
  | @cons c c' d s ss first rest ih =>
    have hnext : Reachable c.step.2 := hc.exec .step
    rw [first] at hnext
    exact ih hnext

/-- **A status is marked by its origin.** Switch a machine on, on any bus and with any settings, and
let any history of commands befall it, with any changes of the bus between them. Then bit 5 of its
status is set and bit 4 is clear, and so it is at every machine that stepping on leads to, as the
steps of a run do. And whenever a step from there pushes the status, the copy has bit 5 set, and bit
4 is set in it if PHP or BRK pushed it and clear if it was pushed for an IRQ or an NMI. -/
theorem status_marked_by_origin (config : Config) (journal : Journal) (bus : β)
    (actions : List (Action β)) :
    let c := ((powerOn config journal bus).history actions).2
    (c.regs.p.bits &&& Status.reserved = Status.reserved ∧
      c.regs.p.bits &&& Status.breakMark = 0) ∧
    ∀ ss d, c.Steps ss d →
      (d.regs.p.bits &&& Status.reserved = Status.reserved ∧
        d.regs.p.bits &&& Status.breakMark = 0) ∧
      (∀ n, d.step.1 = .ok (.instruction 0x08 n) → d.SavesStatus Status.breakMark) ∧
      (∀ n, d.step.1 = .ok (.interrupt .brk n) → d.SavesStatus Status.breakMark) ∧
      (∀ r n, d.step.1 = .ok (.interrupt (.hardware r) n) → d.SavesStatus 0) := by
  intro c
  have hc : Reachable c := (Reachable.powerOn config journal bus).history actions
  refine ⟨Status.wellFormed_iff.mp hc.wellFormed, ?_⟩
  intro ss d hsteps
  have hd : d.regs.p.WellFormed := (hc.steps hsteps).wellFormed
  refine ⟨Status.wellFormed_iff.mp hd, ?_, ?_, ?_⟩
  · intro n hs
    exact savesStatus_of_php hd hs
  · intro n hs
    exact savesStatus_of_interrupt hd hs
  · intro r n hs
    exact savesStatus_of_interrupt hd hs

/-- BRK marks its copy also after the status was set from a byte with all bits set, and the status
itself is not marked. -/
theorem status_marked_by_origin_atBreak :
    let c := ((powerOn atBreak.config {} atBreak.bus).history [.command (.setStatus 0xFF)]).2
    c.regs.p.bits = 0xEF ∧ c.step.1 = .ok (.interrupt .brk 7) ∧ c.SavesStatus Status.breakMark := by
  intro c
  have hstep : c.step.1 = .ok (.interrupt .brk 7) := rfl
  obtain ⟨-, hon⟩ :=
    status_marked_by_origin atBreak.config {} atBreak.bus [.command (.setStatus 0xFF)]
  exact ⟨rfl, hstep, (hon [] _ (.nil _)).2.2.1 7 hstep⟩

end Cpu

end Nmos6502
