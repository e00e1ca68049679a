import Nmos6502.Cpu.Load
import Nmos6502.Proofs.View

/-!
# Hidden memory

A memory holds bytes above its installed size: a block transfer goes straight into the backing
store, whatever is installed. So two machines can differ there and go on differing. This module
shows that nobody can tell. Machines that agree on everything else give the same replies in every
session, and agree again at its end.

The reason is a view. What can be read of a memory is its `Window`: the installed size, and a byte
for each address which is zero above. A window knows nothing of hidden bytes, so two memories that
differ in those alone have the same one, and it follows writes and block transfers. On a window a
block transfer is a write for each byte. That the memory does it in another way is one more thing
that cannot be told: a memory that is filled byte by byte has the same window.

## Main definitions

* `Window`, `Memory.window` — what can be read of a memory
* `Memory.Agrees`, `Cpu.Agrees` — equal but for hidden bytes
* `BytewiseMemory` — a memory that is filled by single writes

## Main results

* `Memory.window_eq_iff` — memories that agree are those with the same window
* `Memory.isView_window`, `BytewiseMemory.isView_window` — a window is a view
* `Cpu.hidden_memory_unobservable` — hidden bytes cannot be told, nor how a block gets in
-/

namespace Nmos6502

/-! ## What can be read of a memory -/

/-- The part of a memory that can be read: its size, and the byte at each address. -/
structure Window where
  /-- Installed bytes. -/
  size : Nat
  bytes : UInt16 → UInt8

namespace Window

/-- Replace a byte, if it is installed. -/
def write (w : Window) (a : UInt16) (b : UInt8) : Window :=
  if a.toNat < w.size then { w with bytes := fun i => if i = a then b else w.bytes i } else w

instance : Bus Window where
  read w a := w.bytes a
  write := write

end Window

namespace Memory

/-- What can be read of a memory. -/
def window (m : Memory) : Window := ⟨m.size, m.read⟩

/-- Two memories that are equal but for hidden bytes. -/
structure Agrees (m n : Memory) : Prop where
  size : m.size = n.size
  stored : ∀ a, a.toNat < m.size → m.stored a = n.stored a

/-- **Memories that agree are those with the same window.** -/
theorem window_eq_iff {m n : Memory} : m.window = n.window ↔ m.Agrees n := by
  constructor
  · intro h
    obtain ⟨hsize, hread⟩ := Window.mk.inj h
    refine ⟨hsize, fun a ha => ?_⟩
    have hbyte := congrFun hread a
    rwa [read_eq, read_eq, if_pos ha, if_pos (hsize ▸ ha)] at hbyte
  · intro h
    have hread : m.read = n.read := by
      funext a
      rw [read_eq, read_eq, ← h.size]
      split
      · exact h.stored a ‹_›
      · rfl
    rw [window, window, h.size, hread]

/-- A byte that is put in above the installed size is hidden. -/
theorem agrees_put {m : Memory} {a : UInt16} (h : m.size ≤ a.toNat) (b : UInt8) :
    m.Agrees (m.put a b) := by
  refine ⟨rfl, fun i hi => ?_⟩
  have hne : i ≠ a := by
    rintro rfl
    omega
  rw [stored_put, if_neg hne]

/-! ## A window is a view -/

/-- A byte that is put into the backing store is seen as a write. -/
theorem window_put (m : Memory) (a : UInt16) (b : UInt8) :
    m.window.write a b = (m.put a b).window := by
  rw [Window.write]
  split
  · have hread : (fun i => if i = a then b else m.read i) = (m.put a b).read := by
      funext i
      rw [read_eq, read_eq, stored_put, size_put]
      by_cases hi : i = a
      · subst hi
        rw [if_pos rfl, if_pos rfl, if_pos ‹_›]
      · rw [if_neg hi, if_neg hi]
    rw [window, window, size_put, ← hread]
  · exact window_eq_iff.mpr (agrees_put (Nat.not_lt.mp ‹_›) b)

theorem window_write (m : Memory) (a : UInt16) (b : UInt8) :
    m.window.write a b = (m.write a b).window := by
  rw [write, inRange]
  by_cases ha : a.toNat < m.size
  · rw [decide_eq_true ha]
    exact m.window_put a b
  · rw [decide_eq_false ha]
    exact if_neg ha

/-- A block that is put into the backing store is seen as a write for each byte. -/
theorem window_writeEach (m : Memory) (a : UInt16) (block : List UInt8) :
    writeEach Window.write m.window a block = (writeEach put m a block).window := by
  induction block generalizing m a with
  | nil => rfl
  | cons b rest ih => rw [writeEach, writeEach, window_put, ih]

/-- **A window is a view of its memory.** -/
theorem isView_window : Bus.IsView window where
  read _ _ := rfl
  write := window_write
  transfer := window_writeEach

end Memory

/-- A memory into which blocks are put byte by byte, as writes. -/
structure BytewiseMemory where
  memory : Memory

namespace BytewiseMemory

instance : Bus BytewiseMemory where
  read x := x.memory.read
  write x a b := ⟨x.memory.write a b⟩

/-- What can be read of the memory. -/
def window (x : BytewiseMemory) : Window := x.memory.window

/-- **A window is a view also of a memory that is filled by single writes.** -/
theorem isView_window : Bus.IsView window where
  read _ _ := rfl
  write x a b := x.memory.window_write a b
  transfer x a block := by
    show writeEach Window.write x.window a block = (writeEach Bus.write x a block).window
    induction block generalizing x a with
    | nil => rfl
    | cons b rest ih =>
      have hbyte : x.window.write a b = (Bus.write x a b).window := x.memory.window_write a b
      rw [writeEach, writeEach, hbyte, ih]

end BytewiseMemory

/-! ## Machines -/

namespace Cpu

/-- Two machines that are equal but for hidden bytes of their memories. -/
structure Agrees (c d : Cpu Memory) : Prop where
  regs : c.regs = d.regs
  cycles : c.cycles = d.cycles
  carry : c.carry = d.carry
  decodeErrors : c.decodeErrors = d.decodeErrors
  pending : c.pending = d.pending
  config : c.config = d.config
  journal : c.journal = d.journal
  memory : c.bus.Agrees d.bus

/-- Machines that agree are those that are equal on the windows of their memories. -/
theorem through_window_eq_iff {c d : Cpu Memory} :
    c.through Memory.window = d.through Memory.window ↔ c.Agrees d := by
  constructor
  · intro h
    obtain ⟨hregs, hcycles, hcarry, herrors, hpending, hconfig, hjournal, hbus⟩ := Cpu.mk.inj h
    exact ⟨hregs, hcycles, hcarry, herrors, hpending, hconfig, hjournal,
      Memory.window_eq_iff.mp hbus⟩
  · rintro ⟨hregs, hcycles, hcarry, herrors, hpending, hconfig, hjournal, hmemory⟩
    rw [through, through, hregs, hcycles, hcarry, herrors, hpending, hconfig, hjournal,
      Memory.window_eq_iff.mpr hmemory]

/-- Machines that are switched on over memories that agree, agree. -/
theorem agrees_powerOn {m n : Memory} (h : m.Agrees n) (config : Config) (journal : Journal) :
    (powerOn config journal m).Agrees (powerOn config journal n) := by
  rw [← through_window_eq_iff, ← powerOn_through Memory.isView_window,
    ← powerOn_through Memory.isView_window, Memory.window_eq_iff.mpr h]

/-- **Hidden memory cannot be observed.** Take two machines on memories of any installed size that
are equal but for bytes above it, and any session. Both give the same replies, and in the end they
are again equal but for such bytes. The same holds if one of the two has a memory into which blocks
are put byte by byte through the bus: whatever is loaded, and wherever, no reply tells the two ways
apart, the number of loaded bytes included. -/
theorem hidden_memory_unobservable {c d : Cpu Memory} (h : c.Agrees d) (commands : List Command) :
    ((c.session commands).1 = (d.session commands).1 ∧
      (c.session commands).2.Agrees (d.session commands).2) ∧
    ((c.session commands).1 = ((d.through BytewiseMemory.mk).session commands).1 ∧
      (c.session commands).2.Agrees
        (((d.through BytewiseMemory.mk).session commands).2.through BytewiseMemory.memory)) := by
  have hc := session_through Memory.isView_window c commands
  have hd := session_through Memory.isView_window d commands
  have hb := session_through BytewiseMemory.isView_window (d.through BytewiseMemory.mk) commands
  have hsame : c.through Memory.window = d.through Memory.window := through_window_eq_iff.mpr h
  have hbytewise : (d.through BytewiseMemory.mk).through BytewiseMemory.window =
      d.through Memory.window := rfl
  rw [hsame, hd] at hc
  rw [hbytewise, hd] at hb
  refine ⟨⟨?_, ?_⟩, ⟨?_, ?_⟩⟩
  · exact (congrArg Prod.fst hc).symm
  · exact through_window_eq_iff.mp (congrArg Prod.snd hc).symm
  · exact (congrArg Prod.fst hc).symm.trans (congrArg Prod.fst hb)
  · exact through_window_eq_iff.mp ((congrArg Prod.snd hc).symm.trans (congrArg Prod.snd hb))

/-- A memory of a quarter of a page, and a byte of its backing store behind that. -/
def quarterPage (b : UInt8) : Memory :=
  (⟨.replicate 65536 0, 64, by decide, by decide⟩ : Memory).put 0x0050 b

/-- A block that starts in the quarter of a page and does not end there. The byte is read before and
after it is put in, and the machine runs into it. -/
def overfill : List Command :=
  [.peek 0x0050, .transfer 0x0030 (.replicate 40 0xEA), .dump 0x0030 64, .run 100]

theorem hidden_memory_unobservable_quarterPage :
    (quarterPage 0x11).stored 0x0050 = 0x11 ∧ (quarterPage 0x99).stored 0x0050 = 0x99 ∧
      ((powerOn {} {} (quarterPage 0x11)).session overfill).1 =
        ((powerOn {} {} (quarterPage 0x99)).session overfill).1 ∧
      ((powerOn {} {} (quarterPage 0x11)).session overfill).1 =
        (((powerOn {} {} (quarterPage 0x99)).through BytewiseMemory.mk).session overfill).1 := by
  have hhidden : ∀ b, (quarterPage b).window = (quarterPage 0).window := fun b =>
    (Memory.window_eq_iff.mpr (Memory.agrees_put (by decide) b)).symm.trans
      (Memory.window_eq_iff.mpr (Memory.agrees_put (by decide) 0))
  have hagrees : (quarterPage 0x11).Agrees (quarterPage 0x99) :=
    Memory.window_eq_iff.mp ((hhidden 0x11).trans (hhidden 0x99).symm)
  obtain ⟨⟨hsame, -⟩, hbytewise, -⟩ :=
    hidden_memory_unobservable (agrees_powerOn hagrees {} {}) overfill
  refine ⟨?_, ?_, hsame, hbytewise⟩
  · rw [quarterPage, Memory.stored_put, if_pos rfl]
  · rw [quarterPage, Memory.stored_put, if_pos rfl]

end Cpu

end Nmos6502
