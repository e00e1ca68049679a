import Nmos6502.Proofs.View

/-!
# Write calls

A bus is any type with a way to read and a way to write. On a given one the state after a step need
not tell what was written to it: a write may be ignored, or undone by the next. A `Recorder` is a
bus that cannot forget. It passes everything on to a bus of any type and keeps the calls of `write`
in their order. The bus is a view of its recorder, so a machine put on one does what it did before,
and the record says which calls it made.

What a call should have been is said in numbers, so that a statement about it does not lean on the
functions that the machine computes it with. The address of a slot of the stack is 256 times the
stack page, plus a number below 256 that counts down from the stack pointer and wraps.

## Main definitions

* `Recorder`, `Cpu.recorded` — a bus that keeps the calls, and a machine put on it
* `inNumbers` — a call, in numbers
* `Cpu.slotBelow` — the address of a stack slot, in numbers
* `Cpu.ReadyFor` — a machine that is about to pull what a step of another pushed

## Main results

* `Cpu.step_recorded` — the machine on the recorder does what the machine does
* `Cpu.inNumbers_push` — what is pushed where
-/

universe u

namespace Nmos6502

/-- The bus after single writes, in their order. -/
def Bus.writes {β : Type u} [Bus β] (bus : β) (ws : List (UInt16 × UInt8)) : β :=
  ws.foldl (fun bus w => Bus.write bus w.1 w.2) bus

/-! ## The recorder -/

/-- A bus with the writes that were made to it, the first one first. -/
structure Recorder (β : Type u) where
  bus : β
  calls : List (UInt16 × UInt8) := []

namespace Recorder

variable {β : Type u} [Bus β]

instance : Bus (Recorder β) where
  read r a := Bus.read r.bus a
  write r a b := ⟨Bus.write r.bus a b, r.calls ++ [(a, b)]⟩
  transfer r a block := ⟨Bus.transfer r.bus a block, r.calls⟩

/-- The bus is a view of its recorder. -/
theorem isView_bus : Bus.IsView (bus : Recorder β → β) where
  read _ _ := rfl
  write _ _ _ := rfl
  transfer _ _ _ := rfl

/-- Writes reach the bus, and are kept in their order. -/
theorem writes_eq (r : Recorder β) (ws : List (UInt16 × UInt8)) :
    Bus.writes r ws = ⟨Bus.writes r.bus ws, r.calls ++ ws⟩ := by
  induction ws generalizing r with
  | nil => rw [List.append_nil]; rfl
  | cons w rest ih =>
    have hfirst : Bus.writes r (w :: rest) =
        Bus.writes (⟨Bus.write r.bus w.1 w.2, r.calls ++ [w]⟩ : Recorder β) rest := rfl
    rw [hfirst, ih, List.append_assoc]
    rfl

end Recorder

/-- A call in numbers: the address and the byte. -/
def inNumbers (w : UInt16 × UInt8) : Nat × Nat := (w.1.toNat, w.2.toNat)

namespace Cpu

variable {β : Type u} [Bus β]

omit [Bus β] in
/-- The machine on a recorder of its bus. -/
def recorded (c : Cpu β) : Cpu (Recorder β) where
  regs := c.regs
  cycles := c.cycles
  carry := c.carry
  decodeErrors := c.decodeErrors
  pending := c.pending
  config := c.config
  journal := c.journal
  bus := { bus := c.bus }

/-- **A machine on a recorder** takes the same step. -/
theorem step_recorded (c : Cpu β) :
    c.step = (c.recorded.step.1, c.recorded.step.2.through Recorder.bus) :=
  step_through Recorder.isView_bus c.recorded

theorem effectiveAddress_recorded (c : Cpu β) (m : Mode) :
    c.recorded.effectiveAddress m = c.effectiveAddress m :=
  (effectiveAddress_through Recorder.isView_bus c.recorded m).symm

/-! ## Slots in numbers -/

omit [Bus β] in
/-- The address of the slot that is `k` below the stack pointer, in numbers. Slot 0 of a page is
followed by slot 255. -/
def slotBelow (c : Cpu β) (k : Nat) : Nat :=
  256 * c.config.stackPage.toNat + (c.regs.s.toNat + 256 - k) % 256

omit [Bus β] in
theorem toNat_stackAddress (c : Cpu β) (k : UInt8) :
    (c.stackAddress (c.regs.s - k)).toNat = c.slotBelow k.toNat := by
  have hs := c.regs.s.toNat_lt
  have hk := k.toNat_lt
  have hslot : (c.regs.s - k).toNat = (c.regs.s.toNat + 256 - k.toNat) % 256 := by
    rw [UInt8.toNat_sub]
    omega
  rw [stackAddress, toNat_word, hslot, slotBelow, Nat.mul_comm]

omit [Bus β] in
theorem toNat_stackAddress_zero (c : Cpu β) :
    (c.stackAddress c.regs.s).toNat = c.slotBelow 0 := by
  have h := c.toNat_stackAddress 0
  rwa [UInt8.sub_zero] at h

omit [Bus β] in
/-- A byte that is pushed. -/
theorem inNumbers_push (c : Cpu β) (b : UInt8) :
    inNumbers (c.stackAddress c.regs.s, b) = (c.slotBelow 0, b.toNat) := by
  rw [inNumbers, toNat_stackAddress_zero]

omit [Bus β] in
/-- A word that is pushed, high byte first. -/
theorem inNumbers_pushWord (c : Cpu β) (w : UInt16) :
    [inNumbers (c.stackAddress c.regs.s, highByte w),
      inNumbers (c.stackAddress (c.regs.s - 1), lowByte w)] =
      [(c.slotBelow 0, w.toNat / 256), (c.slotBelow 1, w.toNat % 256)] := by
  have hsecond : (c.stackAddress (c.regs.s - 1)).toNat = c.slotBelow 1 := c.toNat_stackAddress 1
  rw [inNumbers, inNumbers, toNat_stackAddress_zero, hsecond, toNat_highByte, toNat_lowByte]

/-! ## Pushed bytes that are found again -/

/-- A machine `d` that is about to execute the opcode `b`, with its stack as a step of `c` left it
that pushed `n` bytes: in the same page, with the pointer in the same place, and with the same bytes
in the slots that the step wrote to. -/
structure ReadyFor (b n : UInt8) (c d : Cpu β) : Prop where
  due : d.due? = none
  opcode : Bus.read d.bus d.regs.pc = b
  page : d.config.stackPage = c.config.stackPage
  pointer : d.regs.s.toNat = (c.regs.s.toNat + 256 - n.toNat) % 256
  slots : ∀ w ∈ c.recorded.step.2.bus.calls, Bus.read d.bus w.1 = Bus.read c.step.2.bus w.1

namespace ReadyFor

variable {b n : UInt8} {c d : Cpu β}

/-- If the bus keeps what the step wrote, then it is found in the slots. -/
theorem read_slots (h : ReadyFor b n c d)
    (kept : ∀ w ∈ c.recorded.step.2.bus.calls, Bus.read c.step.2.bus w.1 = w.2) :
    ∀ w ∈ c.recorded.step.2.bus.calls, Bus.read d.bus w.1 = w.2 := fun w hw =>
  (h.slots w hw).trans (kept w hw)

theorem pointer_eq (h : ReadyFor b n c d) : d.regs.s = c.regs.s - n := by
  have hs := c.regs.s.toNat_lt
  have hn := n.toNat_lt
  refine UInt8.toNat_inj.mp ?_
  rw [h.pointer, UInt8.toNat_sub]
  omega

/-- Counting up from where the pointer is, and down from where it was. -/
theorem stackAddress_up (h : ReadyFor b n c d) {up down : UInt8} (hs : up + down = n) :
    d.stackAddress (d.regs.s + up) = c.stackAddress (c.regs.s - down) := by
  have he : c.regs.s - n + up = c.regs.s - down := by grind
  rw [stackAddress, stackAddress, h.page, h.pointer_eq, he]

theorem stackAddress_top (h : ReadyFor b n c d) :
    d.stackAddress (d.regs.s + n) = c.stackAddress c.regs.s := by
  rw [h.stackAddress_up (UInt8.add_zero n), UInt8.sub_zero]

end ReadyFor

end Cpu

end Nmos6502
