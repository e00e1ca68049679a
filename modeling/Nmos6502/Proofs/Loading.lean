import Mathlib.Logic.Basic
import Nmos6502.Cpu.Load
import Nmos6502.Proofs.Frame
import Nmos6502.Proofs.Status

/-!
# Loading a program

A program image is put on the bus, as much of it as there is room for, and the machine is reset.
This module says what is in memory then, what the reset leaves alone, and where the machine
continues.

## Where a program starts

If the image brings both bytes of the reset vector, the machine continues at the word that they
make, and otherwise at the first byte of the image: that is `Cpu.entry`. The machine decides it by
comparing numbers, `Cpu.coversVector`, and takes the second byte of the vector to be above the
first. That goes wrong at one place. A vector at the last address has its second byte at the first
one, and an image that fills the whole address space brings both; there, and nowhere else, the
machine continues at the first byte of the image although the vector came with it.

## Main definitions

* `Bus.Covers`, `Bus.copied` — the addresses that bytes go to, and how many bytes there is room for
* `Cpu.Restarted` — what a reset sets, and what it leaves alone
* `Cpu.entry` — where a program starts

## Main results

* `get_writeEach`, `Memory.stored_transfer` — what a block leaves in memory
* `Cpu.coversVector_iff` — what the machine takes for a covered vector
* `Cpu.restarted_load`, `Cpu.pc_load` — the machine after a load
* `Cpu.load_copies_and_restarts` — a load, in full
* `Cpu.load_ignores_wrapped_vector` — the one place where the vector is not found
-/

universe u

namespace Nmos6502

/-! ## Blocks in memory -/

namespace Bus

/-- The address is one of `count` that start at an offset, without wrapping. -/
def Covers (offset : UInt16) (count : Nat) (a : UInt16) : Prop :=
  offset.toNat ≤ a.toNat ∧ a.toNat < offset.toNat + count

instance (offset : UInt16) (count : Nat) (a : UInt16) : Decidable (Covers offset count a) :=
  inferInstanceAs (Decidable (_ ∧ _))

/-- How many bytes of an image there is room for. -/
def copied (image : List UInt8) (offset : UInt16) : Nat := min image.length (65536 - offset.toNat)

theorem covers_first (a : UInt16) (count : Nat) : Covers a (count + 1) a :=
  ⟨Nat.le_refl _, by omega⟩

section Next

variable {a i : UInt16} {count : Nat} (hfit : a.toNat + (count + 1) ≤ 65536)
include hfit

/-- The addresses after the first do not come back to it. -/
theorem not_covers_first : ¬ Covers (a + 1) count a := by
  have hnext := toNat_add_one a
  rintro ⟨hle, hlt⟩
  omega

theorem covers_next_iff (hi : i ≠ a) : Covers (a + 1) count i ↔ Covers a (count + 1) i := by
  have hnext := toNat_add_one a
  have hne : i.toNat ≠ a.toNat := fun heq => hi (UInt16.toNat_inj.mp heq)
  have hilt := i.toNat_lt
  rw [Covers, Covers]
  omega

/-- The position in a block, counted from the second address. -/
theorem sub_eq_of_covers_next (h : Covers (a + 1) count i) :
    i.toNat - a.toNat = i.toNat - (a + 1).toNat + 1 := by
  have hnext := toNat_add_one a
  obtain ⟨hle, hlt⟩ := h
  omega

end Next

theorem offset_add_copied_le (image : List UInt8) (offset : UInt16) :
    offset.toNat + copied image offset ≤ 65536 := by
  have hoffset := offset.toNat_lt
  rw [copied]
  omega

theorem take_room (image : List UInt8) (offset : UInt16) :
    image.take (room offset) = image.take (copied image offset) := by
  rw [copied, room, Nat.min_comm, ← List.take_eq_take_min]

end Bus

/-- Where single bytes are kept, a block is kept: what is read at an address that it covers is the
byte of the block that belongs there, and elsewhere nothing changes. -/
theorem get_writeEach {β : Type u} {put : β → UInt16 → UInt8 → β} {get : β → UInt16 → UInt8}
    (h : ∀ m a b i, get (put m a b) i = if i = a then b else get m i) (m : β) (a : UInt16)
    (block : List UInt8) (hfit : a.toNat + block.length ≤ 65536) (i : UInt16) :
    get (writeEach put m a block) i =
      if Bus.Covers a block.length i then block.getD (i.toNat - a.toNat) 0 else get m i := by
  induction block generalizing m a with
  | nil =>
    have hnone : ¬ Bus.Covers a ([] : List UInt8).length i := by
      rintro ⟨hle, hlt⟩
      exact absurd hlt (Nat.not_lt.mpr hle)
    rw [if_neg hnone]
    rfl
  | cons b rest ih =>
    have hrest : (a + 1).toNat + rest.length ≤ 65536 := by
      have hnext := toNat_add_one a
      rw [List.length_cons] at hfit
      omega
    rw [List.length_cons] at hfit ⊢
    rw [writeEach, ih _ _ hrest, h]
    by_cases hi : i = a
    · subst hi
      rw [if_neg (Bus.not_covers_first hfit), if_pos rfl, if_pos (Bus.covers_first _ _),
        Nat.sub_self, List.getD_cons_zero]
    · rw [if_neg hi]
      by_cases hc : Bus.Covers (a + 1) rest.length i
      · rw [if_pos hc, if_pos ((Bus.covers_next_iff hfit hi).mp hc),
          Bus.sub_eq_of_covers_next hfit hc, List.getD_cons_succ]
      · rw [if_neg hc, if_neg fun h => hc ((Bus.covers_next_iff hfit hi).mpr h)]

theorem Memory.stored_transfer (m : Memory) (offset : UInt16) (block : List UInt8)
    (hfit : offset.toNat + block.length ≤ 65536) (a : UInt16) :
    (Bus.transfer m offset block).stored a =
      if Bus.Covers offset block.length a then block.getD (a.toNat - offset.toNat) 0
      else m.stored a :=
  get_writeEach (fun m a b i => m.stored_put a i b) m offset block hfit a

theorem Memory.size_transfer (m : Memory) (offset : UInt16) (block : List UInt8) :
    (Bus.transfer m offset block).size = m.size := by
  show (writeEach Memory.put m offset block).size = m.size
  induction block generalizing m offset with
  | nil => rfl
  | cons b rest ih => rw [writeEach, ih, Memory.size_put]

namespace Cpu

variable {β : Type u} [Bus β]

/-! ## What a reset leaves -/

/-- The machine `d` is the machine `c` restarted: with the stack pointer at 0xFD, the flag I set and
nothing waiting, and with everything else that neither the bus, nor the program counter, nor the
journal has to do with as it was. -/
structure Restarted (c d : Cpu β) : Prop where
  stackPointer : d.regs.s = 0xFD
  masked : d.masked = true
  pending : d.pending = .idle
  a : d.regs.a = c.regs.a
  x : d.regs.x = c.regs.x
  y : d.regs.y = c.regs.y
  flags : ∀ mask ∈ Status.flags, mask ≠ Status.interruptDisable →
    d.regs.p.contains mask = c.regs.p.contains mask
  cycles : d.cycles = c.cycles
  decodeErrors : d.decodeErrors = c.decodeErrors
  carry : d.carry = c.carry
  config : d.config = c.config

theorem restarted_reset (c : Cpu β) : Restarted c c.reset where
  stackPointer := rfl
  masked := c.regs.p.contains_set (by decide) (by decide) true
  pending := rfl
  a := rfl
  x := rfl
  y := rfl
  flags mask hm hne := by
    show (c.regs.p.set _ true).contains mask = _
    rw [Status.contains_set _ (by decide) hm, if_neg hne]
  cycles := rfl
  decodeErrors := rfl
  carry := rfl
  config := rfl

/-- A load restarts the machine. -/
theorem restarted_load (c : Cpu β) (image : List UInt8) (offset : UInt16) :
    Restarted c (c.load image offset).2 := by
  have h := restarted_reset { c with bus := (Bus.load c.bus offset image).1 }
  exact { h with }

/-! ## Where a program starts -/

theorem bus_load (c : Cpu β) (image : List UInt8) (offset : UInt16) :
    (c.load image offset).2.bus =
      Bus.transfer c.bus offset (image.take (Bus.copied image offset)) :=
  congrArg (Bus.transfer c.bus offset) (Bus.take_room image offset)

/-- **What a load leaves in memory.** -/
theorem stored_load (c : Cpu Memory) (image : List UInt8) (offset a : UInt16) :
    (c.load image offset).2.bus.stored a =
      if Bus.Covers offset (Bus.copied image offset) a then image.getD (a.toNat - offset.toNat) 0
      else c.bus.stored a := by
  have hlength : (image.take (Bus.copied image offset)).length = Bus.copied image offset :=
    List.length_take_of_le (Nat.min_le_left ..)
  have hfit := Bus.offset_add_copied_le image offset
  rw [bus_load, Memory.stored_transfer _ _ _ (by rw [hlength]; exact hfit), hlength]
  refine ite_congr rfl (fun hcovers => ?_) (fun _ => rfl)
  have hindex : a.toNat - offset.toNat < Bus.copied image offset := by
    have hlt := hcovers.2
    have hle := hcovers.1
    omega
  rw [List.getD_eq_getElem?_getD, List.getD_eq_getElem?_getD, List.getElem?_take_of_lt hindex]

/-- What the machine takes for a covered vector. Both bytes are, and the vector is not the last
address. -/
theorem coversVector_iff {vector offset : UInt16} {count : Nat}
    (hfit : offset.toNat + count ≤ 65536) :
    coversVector vector offset count = true ↔
      (Bus.Covers offset count vector ∧ Bus.Covers offset count (vector + 1)) ∧
        vector ≠ 0xFFFF := by
  have hnext := toNat_add_one vector
  have hlast : vector = 0xFFFF ↔ vector.toNat = 65535 := by
    rw [← UInt16.toNat_inj]
    rfl
  have hvector := vector.toNat_lt
  simp only [coversVector, Bus.Covers, Bool.and_eq_true, decide_eq_true_eq, Ne, hlast]
  omega

/-- An image covers both the last address and the first if it fills the address space. -/
theorem covers_last_and_first_iff (image : List UInt8) (offset : UInt16) :
    Bus.Covers offset (Bus.copied image offset) 0xFFFF ∧
        Bus.Covers offset (Bus.copied image offset) (0xFFFF + 1) ↔
      offset = 0 ∧ 65536 ≤ image.length := by
  have hlast : (0xFFFF : UInt16).toNat = 65535 := rfl
  have hfirst : ((0xFFFF : UInt16) + 1).toNat = 0 := rfl
  have hzero : offset = 0 ↔ offset.toNat = 0 := by
    rw [← UInt16.toNat_inj]
    rfl
  simp only [Bus.Covers, Bus.copied, hlast, hfirst, hzero]
  omega

/-- Where a program starts that was put in at an offset: at the word that the bus holds at the reset
vector if both bytes of it came with the program, and otherwise at the offset. -/
def entry (d : Cpu β) (image : List UInt8) (offset : UInt16) : UInt16 :=
  let vector := d.config.resetVector
  let count := Bus.copied image offset
  if Bus.Covers offset count vector ∧ Bus.Covers offset count (vector + 1) then
    Bus.readWord d.bus vector
  else offset

/-- If the reset vector is at the last address, the machine never takes it for covered. -/
theorem pc_load_of_last {c : Cpu β} (h : c.config.resetVector = 0xFFFF) (image : List UInt8)
    (offset : UInt16) : (c.load image offset).2.regs.pc = offset := by
  have hnot : ¬ coversVector c.config.resetVector offset (Bus.copied image offset) = true := by
    intro hcovers
    exact ((coversVector_iff (Bus.offset_add_copied_le image offset)).mp hcovers).2 h
  exact if_neg hnot

theorem pc_load_of_ne_last {c : Cpu β} (h : c.config.resetVector ≠ 0xFFFF) (image : List UInt8)
    (offset : UInt16) :
    (c.load image offset).2.regs.pc = (c.load image offset).2.entry image offset := by
  have hcovers : coversVector c.config.resetVector offset (Bus.copied image offset) = true ↔ _ :=
    coversVector_iff (Bus.offset_add_copied_le image offset)
  exact if_congr (hcovers.trans (and_iff_left h)) rfl rfl

/-- **Where the machine continues after a load.** Where the program starts, but for one case. -/
theorem pc_load (c : Cpu β) (image : List UInt8) (offset : UInt16) :
    (c.load image offset).2.regs.pc =
      if c.config.resetVector = 0xFFFF ∧ offset = 0 ∧ 65536 ≤ image.length then 0
      else (c.load image offset).2.entry image offset := by
  by_cases hlast : c.config.resetVector = 0xFFFF
  · rw [pc_load_of_last hlast]
    by_cases hfull : offset = 0 ∧ 65536 ≤ image.length
    · rw [if_pos ⟨hlast, hfull⟩]
      exact hfull.1
    · have huncovered : ¬ (Bus.Covers offset (Bus.copied image offset) c.config.resetVector ∧
          Bus.Covers offset (Bus.copied image offset) (c.config.resetVector + 1)) := by
        rw [hlast, covers_last_and_first_iff]
        exact hfull
      rw [if_neg fun h => hfull h.2]
      exact (if_neg huncovered).symm
  · rw [if_neg fun h => hlast h.1, pc_load_of_ne_last hlast]

/-- **A load copies and restarts.** On any bus, with any settings and from any state, as many bytes
of an image are put on the bus as fit, and their number is the result. The machine is then
restarted, and continues where the program starts, but for one case: if the reset vector is at the
last address and the image fills the address space, it continues at 0. In a memory, each address
that is covered holds its byte of the image, and every other address what it held before. -/
theorem load_copies_and_restarts (c : Cpu β) (d : Cpu Memory) (image : List UInt8)
    (offset : UInt16) :
    (c.load image offset).1 = Bus.copied image offset ∧
    (c.load image offset).2.bus =
      Bus.transfer c.bus offset (image.take (Bus.copied image offset)) ∧
    Restarted c (c.load image offset).2 ∧
    (c.load image offset).2.regs.pc =
      (if c.config.resetVector = 0xFFFF ∧ offset = 0 ∧ 65536 ≤ image.length then 0
      else (c.load image offset).2.entry image offset) ∧
    ∀ a, (d.load image offset).2.bus.stored a =
      if Bus.Covers offset (Bus.copied image offset) a then image.getD (a.toNat - offset.toNat) 0
      else d.bus.stored a := by
  refine ⟨rfl, c.bus_load image offset, c.restarted_load image offset, c.pc_load image offset, ?_⟩
  intro a
  exact d.stored_load image offset a

/-! ## A vector that wraps -/

/-- A machine whose reset vector is at the last address. -/
def wrapping : Cpu Memory := .powerOn { resetVector := 0xFFFF } {} .full

/-- An image of 65536 bytes that fills the address space. -/
def fullImage : List UInt8 := (List.range 65536).map fun i => UInt8.ofNat (i + 18)

theorem copied_fullImage : Bus.copied fullImage 0 = 65536 := by
  rw [Bus.copied, fullImage, List.length_map, List.length_range]
  rfl

theorem covers_full (a : UInt16) : Bus.Covers 0 (Bus.copied fullImage 0) a := by
  rw [copied_fullImage]
  exact ⟨Nat.zero_le _, a.toNat_lt⟩

/-- Loaded at 0, the image is what memory holds. -/
theorem read_load_fullImage (a : UInt16) :
    Bus.read (wrapping.load fullImage 0).2.bus a = UInt8.ofNat (a.toNat + 18) := by
  have hsize : (wrapping.load fullImage 0).2.bus.size = 65536 := by
    rw [bus_load, Memory.size_transfer]
    rfl
  have hbyte : fullImage.getD a.toNat 0 = UInt8.ofNat (a.toNat + 18) := by
    rw [List.getD_eq_getElem?_getD, fullImage, List.getElem?_map, List.getElem?_range a.toNat_lt]
    rfl
  show (wrapping.load fullImage 0).2.bus.read a = _
  rw [Memory.read_eq, hsize, if_pos a.toNat_lt, stored_load, if_pos (covers_full a)]
  exact hbyte

/-- **A vector that wraps is ignored.** The image brings both bytes of the reset vector, and the
word that they make is 0x1211, but the machine continues at 0. -/
theorem load_ignores_wrapped_vector :
    (wrapping.load fullImage 0).2.regs.pc = 0 ∧
      (wrapping.load fullImage 0).2.entry fullImage 0 = 0x1211 := by
  have hvector : (wrapping.load fullImage 0).2.config.resetVector = 0xFFFF := rfl
  refine ⟨pc_load_of_last rfl fullImage 0, ?_⟩
  rw [entry, if_pos ⟨covers_full _, covers_full _⟩, hvector, Bus.readWord, read_load_fullImage,
    read_load_fullImage]
  decide

end Cpu

end Nmos6502
