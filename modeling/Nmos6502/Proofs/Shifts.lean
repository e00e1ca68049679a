import Mathlib.Data.List.Nodup
import Mathlib.Data.Nat.Digits.Defs
import Mathlib.Tactic.Ring
import Nmos6502.Proofs.Chains
import Nmos6502.Proofs.Stack
import Nmos6502.Proofs.Writes

/-!
# Shifts of many bytes

A number of many bytes is doubled from its lowest byte up, and halved from its highest byte down. In
either direction the first byte is shifted, by ASL or LSR, and the others are rotated, by ROL or
ROR, so that the bit that leaves one byte enters the next through the carry. This module shows that
this works, for any number of bytes and in either place where a byte can be shifted: in the
accumulator, one byte after the other, or in memory, where the bytes stay where they are.

## One byte

A shift multiplies or divides by two. What it takes in at the free end and what it gives out at the
other is the rest of the equation, `Shift.value_left` and `Shift.value_right`, and from there on the
four shifts differ in nothing but what they take in.

Where the byte is makes no difference either. A `Cell` is the accumulator or an address, and one
lemma says of both what a step that shifts the cell leaves in it and in the flags.

## Many bytes

`Cpu.ShiftChain` is one shift after the other, each on whatever cell of whatever machine, linked by
the carry alone. That is what the arithmetic needs. `Cpu.InPlace` is about one memory: the addresses
are shifted in turn, and between two shifts anything may happen that leaves the bytes there and the
carry alone. If no address comes twice and all keep what is written to them, then each byte is
shifted once and found again at the end, and the shifts in place are a chain.

## Main definitions

* `Shift.takesIn`, `Shift.next` — the bit at the free end, and the shift of the next byte
* `Cell`, `Cpu.content`, `Cpu.Shifts` — the place of a byte, and one shift of it
* `Cpu.ShiftChain`, `Cpu.InPlace` — many shifts
* `Bus.KeepsAll` — addresses that keep what is written to them

## Main results

* `Shift.value_left`, `Shift.value_right`, `Shift.value_back` — one byte
* `Cpu.Shifts.content_step`, `Cpu.Shifts.carry_step` — one shift
* `Cpu.ShiftChain.double`, `Cpu.ShiftChain.halve` — a chain of shifts
* `Cpu.InPlace.shiftChain` — shifts in place are a chain
* `Cpu.multi_byte_shifts` — doubling and halving, and what else shifts are relied on for
-/

universe u v

namespace Nmos6502

/-! ## One byte -/

namespace Shift

/-- The shift is towards the high bits. -/
def IsLeft : Shift → Prop
  | asl | rol => True
  | lsr | ror => False

/-- The bit that comes in at the free end: the carry in a rotation. -/
def takesIn (cin : Bool) : Shift → Bool
  | asl | lsr => false
  | rol | ror => cin

/-- What is done to the next byte: a rotation in the same direction. -/
def next : Shift → Shift
  | asl | rol => rol
  | lsr | ror => ror

theorem isLeft_next {s : Shift} : s.next.IsLeft ↔ s.IsLeft := by
  cases s <;> rfl

theorem takesIn_next (s : Shift) (cin : Bool) : s.next.takesIn cin = cin := by
  cases s <;> rfl

theorem takesIn_of_rotation {s : Shift} (h : s.next = s) (cin : Bool) : s.takesIn cin = cin := by
  rw [← h, takesIn_next]

/-- **A shift to the left doubles.** What comes in is the new lowest bit, and what goes out is 256.
-/
theorem value_left {s : Shift} (h : s.IsLeft) (cin : Bool) (b : UInt8) :
    (s.value cin b).toNat + 256 * (s.carryOut b).toNat = 2 * b.toNat + (s.takesIn cin).toNat := by
  have hb := b.toNat_lt
  have hout : (decide (0x80 ≤ b)).toNat = if 128 ≤ b.toNat then 1 else 0 := by
    rw [toNat_decide]
    exact if_congr UInt8.le_iff_toNat_le rfl rfl
  cases s with
  | asl =>
    show (b + b).toNat + 256 * (decide (0x80 ≤ b)).toNat = 2 * b.toNat + 0
    rw [hout, UInt8.toNat_add]
    split <;> omega
  | rol =>
    show (b + b + if cin then 1 else 0).toNat + 256 * (decide (0x80 ≤ b)).toNat =
      2 * b.toNat + cin.toNat
    rw [hout, UInt8.toNat_add, UInt8.toNat_add]
    cases cin
    · show ((b.toNat + b.toNat) % 256 + 0) % 256 + _ = _ + 0
      split <;> omega
    · show ((b.toNat + b.toNat) % 256 + 1) % 256 + _ = _ + 1
      split <;> omega
  | lsr | ror => exact h.elim

/-- **A shift to the right halves.** What comes in is worth 256, and what goes out was the lowest
bit. -/
theorem value_right {s : Shift} (h : ¬ s.IsLeft) (cin : Bool) (b : UInt8) :
    2 * (s.value cin b).toNat + (s.carryOut b).toNat = b.toNat + 256 * (s.takesIn cin).toNat := by
  have hb := b.toNat_lt
  have hhalf : (b / 2).toNat = b.toNat / 2 := UInt8.toNat_div b 2
  have hout : (b % 2 == 1).toNat = b.toNat % 2 :=
    forall_byte (P := fun b => (b % 2 == 1).toNat = b.toNat % 2) (by decide +kernel) b
  cases s with
  | lsr =>
    show 2 * (b / 2).toNat + (b % 2 == 1).toNat = b.toNat + 256 * 0
    rw [hout, hhalf]
    omega
  | ror =>
    show 2 * (b / 2 + if cin then 0x80 else 0).toNat + (b % 2 == 1).toNat =
      b.toNat + 256 * cin.toNat
    rw [hout, UInt8.toNat_add, hhalf]
    cases cin
    · show 2 * ((b.toNat / 2 + 0) % 256) + _ = _ + 256 * 0
      omega
    · show 2 * ((b.toNat / 2 + 128) % 256) + _ = _ + 256 * 1
      omega
  | asl | rol => exact absurd trivial h

/-- The rotations, each with the one in the other direction. -/
def opposites : List (Shift × Shift) := [(rol, ror), (ror, rol)]

/-- **A rotation is undone by its opposite**: what went out comes in again. -/
theorem value_back {s t : Shift} (h : (s, t) ∈ opposites) (cin : Bool) (b : UInt8) :
    t.value (s.carryOut b) (s.value cin b) = b ∧ t.carryOut (s.value cin b) = cin := by
  have hb := b.toNat_lt
  have hc := cin.toNat_lt
  have hbit : ∀ x y : Bool, x.toNat = y.toNat → x = y := by decide
  suffices hback : (t.value (s.carryOut b) (s.value cin b)).toNat = b.toNat ∧
      (t.carryOut (s.value cin b)).toNat = cin.toNat from
    ⟨UInt8.toNat_inj.mp hback.1, hbit _ _ hback.2⟩
  simp only [opposites, List.mem_cons, Prod.mk.injEq, List.not_mem_nil, or_false] at h
  rcases h with ⟨rfl, rfl⟩ | ⟨rfl, rfl⟩
  · have hleft := value_left (s := rol) trivial cin b
    have hright := value_right (s := ror) not_false (rol.carryOut b) (rol.value cin b)
    have hcout := (ror.carryOut (rol.value cin b)).toNat_lt
    simp only [takesIn] at hleft hright
    omega
  · have hright := value_right (s := ror) not_false cin b
    have hleft := value_left (s := rol) trivial (ror.carryOut b) (ror.value cin b)
    have hout := (rol.value (ror.carryOut b) (ror.value cin b)).toNat_lt
    simp only [takesIn] at hleft hright
    omega

/-- A shift looks at the carry only to take it in. -/
theorem value_congr {s : Shift} {cin cin' : Bool} (h : s.takesIn cin = s.takesIn cin')
    (b : UInt8) : s.value cin b = s.value cin' b := by
  cases s with
  | asl | lsr => rfl
  | rol => exact congrArg (rol.value · b) h
  | ror => exact congrArg (ror.value · b) h

end Shift

/-! ## Numbers of many bytes -/

theorem number_byte_cons (b : UInt8) (bs : List UInt8) :
    number false (b :: bs) = b.toNat + 256 * number false bs := rfl

theorem number_byte_concat (bs : List UInt8) (b : UInt8) :
    number false (bs ++ [b]) = number false bs + 256 ^ bs.length * b.toNat := by
  rw [number, List.map_append, Nat.ofDigits_append, List.length_map, List.map_singleton,
    Nat.ofDigits_singleton]
  rfl

theorem number_byte_lt (bs : List UInt8) : number false bs < 256 ^ bs.length := by
  have hdigits : ∀ n ∈ bs.map UInt8.toNat, n < 256 := by
    intro n hn
    obtain ⟨b, -, rfl⟩ := List.mem_map.mp hn
    exact b.toNat_lt
  have hlt := Nat.ofDigits_lt_base_pow_length (by decide) hdigits
  rw [List.length_map] at hlt
  exact hlt

/-- The numbers of `n` bytes are twice as many as those without the top bit. -/
theorem pow_bytes {n : Nat} (hn : 0 < n) : 256 ^ n = 2 * 2 ^ (8 * n - 1) := by
  have hbyte : (256 : Nat) = 2 ^ 8 := rfl
  rw [hbyte, ← Nat.pow_mul, ← Nat.pow_succ']
  congr 1
  omega

/-- What a doubled number is too large by is its top bit. -/
theorem eq_testBit_of_double {x rest k : Nat} {excess : Bool}
    (h : rest + excess.toNat * (2 * 2 ^ k) = 2 * x) (hlt : rest < 2 * 2 ^ k) :
    excess = x.testBit k := by
  have hdiv : x / 2 ^ k = excess.toNat := by
    cases excess with
    | false =>
      rw [Bool.toNat_false] at h ⊢
      exact Nat.div_eq_of_lt (by omega)
    | true =>
      rw [Bool.toNat_true] at h ⊢
      exact Nat.div_eq_of_lt_le (by omega) (by omega)
  rw [Nat.testBit_eq_decide_div_mod_eq, hdiv]
  cases excess <;> rfl

/-! ## The place of a byte -/

/-- Where a byte can be shifted. -/
inductive Cell
  | accumulator
  | memory (a : UInt16)
  deriving DecidableEq, Repr

namespace Cpu

variable {β : Type u} [Bus β] {γ : Type v} [Bus γ]

/-- The byte in a cell. -/
def content (c : Cpu β) : Cell → UInt8
  | .accumulator => c.regs.a
  | .memory a => Bus.read c.bus a

/-- The cell keeps what is written to it. The accumulator always does. -/
def Keeps (c : Cpu β) : Cell → Prop
  | .accumulator => True
  | .memory a => ∀ b, Bus.read (Bus.write c.bus a b) a = b

omit [Bus β] in
/-- The carry that a shift finds, or has left. -/
def carryFlag (c : Cpu β) : Bool := c.regs.p.contains Status.carry

/-- The operation shifts the cell, in whatever mode of address. -/
def ShiftsCell (c : Cpu β) (s : Shift) (o : Operation) : Cell → Prop
  | .accumulator => o = .shift s
  | .memory a => ∃ p, o = .modify (.shift s) p ∧ c.address p = a

/-- The machine is about to shift a cell: nothing is to be served before it. -/
structure Shifts (s : Shift) (k : Cell) (c : Cpu β) : Prop where
  due : c.due? = none
  opcode : ∃ o, c.opcode? = some o ∧ c.ShiftsCell s o.operation k

/-! ## One shift -/

namespace Shifts

variable {s : Shift} {k : Cell} {a : UInt16} {c : Cpu β} {d : Cpu γ}

/-- A shift succeeds, and takes its flags from the byte in the cell and from the carry. -/
theorem step (h : c.Shifts s k) :
    (∃ r, c.step.1 = .ok r) ∧
      c.step.2.regs.p = Modifier.status c.regs.p (c.content k) (.shift s) := by
  obtain ⟨o, ho, hcell⟩ := h.opcode
  obtain ⟨hreport, hregs⟩ := step_of_opcode h.due ho
  refine ⟨⟨_, hreport⟩, ?_⟩
  rw [hregs]
  cases k with
  | accumulator =>
    rw [hcell]
    rfl
  | memory a =>
    obtain ⟨p, hp, rfl⟩ := hcell
    rw [hp]
    rfl

/-- A shift of the accumulator leaves the new byte there. -/
theorem a_step (h : c.Shifts s .accumulator) :
    c.step.2.regs.a = s.value c.carryFlag c.regs.a := by
  obtain ⟨o, ho, hop⟩ := h.opcode
  obtain ⟨-, hregs⟩ := step_of_opcode h.due ho
  rw [hregs, hop]
  rfl

/-- A shift of a byte in memory writes the new byte in its place. -/
theorem bus_step (h : c.Shifts s (.memory a)) :
    c.step.2.bus = Bus.write c.bus a (s.value c.carryFlag (Bus.read c.bus a)) := by
  obtain ⟨o, ho, p, hp, rfl⟩ := h.opcode
  rw [c.bus_step, stepWrites_of_opcode h.due ho, hp]
  rfl

/-- **A shift leaves the shifted byte in its cell**, if the cell keeps it. -/
theorem content_step (h : c.Shifts s k) (keeps : c.Keeps k) :
    c.step.2.content k = s.value c.carryFlag (c.content k) := by
  cases k with
  | accumulator => exact h.a_step
  | memory a =>
    rw [content, h.bus_step]
    exact keeps _

/-- **A shift leaves in the carry what it shifted out.** -/
theorem carry_step (h : c.Shifts s k) : c.step.2.carryFlag = s.carryOut (c.content k) := by
  rw [carryFlag, h.step.2, Modifier.status,
    Status.contains_setZN _ (by decide) (by decide) (by decide),
    Status.contains_set _ (by decide) (by decide), if_pos rfl]

/-- Zero and negative describe the shifted byte. -/
theorem describes_step (h : c.Shifts s k) :
    c.step.2.regs.p.Describes (s.value c.carryFlag (c.content k)) := by
  rw [h.step.2]
  exact Status.describes_setZN _ _

/-- From the same byte and the same bit taken in, the same flags are left, wherever the byte is. -/
theorem agree {k' : Cell} (hc : c.Shifts s k) (hd : d.Shifts s k')
    (hbyte : d.content k' = c.content k) (hin : s.takesIn d.carryFlag = s.takesIn c.carryFlag) :
    ∀ mask ∈ [Status.carry, Status.zero, Status.negative],
      d.step.2.regs.p.contains mask = c.step.2.regs.p.contains mask := by
  have hcarry : d.step.2.carryFlag = c.step.2.carryFlag := by
    rw [hd.carry_step, hc.carry_step, hbyte]
  have hdescribes := hd.describes_step
  rw [hbyte, Shift.value_congr hin] at hdescribes
  exact List.forall_mem_cons.mpr ⟨hcarry, hdescribes.agree hc.describes_step⟩

end Shifts

/-! ## A chain of shifts -/

/-- One shift after the other, from the first on: each of the others is a rotation that finds the
carry that the one before it left. The cells and the machines may be any. The results are what the
cells then hold, in the order of the shifts, and the last carry is left over. A chain that starts
with a rotation may be empty. -/
inductive ShiftChain (β : Type u) [Bus β] :
    (s : Shift) → (cin : Bool) → (xs results : List UInt8) → (cout : Bool) → Prop
  | nil {s : Shift} (rotation : s.next = s) (cin : Bool) : ShiftChain β s cin [] [] cin
  | cons {s : Shift} {k : Cell} {c : Cpu β} {xs results : List UInt8} {cout : Bool}
    (first : c.Shifts s k) (keeps : c.Keeps k)
    (rest : ShiftChain β s.next c.step.2.carryFlag xs results cout) :
    ShiftChain β s c.carryFlag (c.content k :: xs) (c.step.2.content k :: results) cout

namespace ShiftChain

variable {s : Shift} {cin cout : Bool} {xs results : List UInt8}

theorem length_results (h : ShiftChain β s cin xs results cout) : results.length = xs.length := by
  induction h with
  | nil => rfl
  | cons first keeps rest ih => rw [List.length_cons, List.length_cons, ih]

/-- **From the lowest byte up** a chain doubles a number. -/
theorem number_left (h : ShiftChain β s cin xs results cout) (left : s.IsLeft) :
    number false results + cout.toNat * 256 ^ xs.length =
      2 * number false xs + (s.takesIn cin).toNat := by
  induction h with
  | @nil s rotation cin =>
    rw [Shift.takesIn_of_rotation rotation]
    show 0 + cin.toNat * 1 = 2 * 0 + cin.toNat
    omega
  | @cons s k c xs results cout first keeps rest ih =>
    have hdigit := s.value_left left c.carryFlag (c.content k)
    have hrest := ih (Shift.isLeft_next.mpr left)
    rw [Shift.takesIn_next, first.carry_step] at hrest
    rw [first.content_step keeps, number_byte_cons, number_byte_cons, List.length_cons]
    calc (s.value c.carryFlag (c.content k)).toNat + 256 * number false results +
          cout.toNat * 256 ^ (xs.length + 1)
        = (s.value c.carryFlag (c.content k)).toNat +
            256 * (number false results + cout.toNat * 256 ^ xs.length) := by ring
      _ = ((s.value c.carryFlag (c.content k)).toNat +
            256 * (s.carryOut (c.content k)).toNat) + 256 * (2 * number false xs) := by
          rw [hrest]; ring
      _ = 2 * ((c.content k).toNat + 256 * number false xs) + (s.takesIn c.carryFlag).toNat := by
          rw [hdigit]; ring

/-- **From the highest byte down** a chain halves a number. -/
theorem number_right (h : ShiftChain β s cin xs results cout) (right : ¬ s.IsLeft) :
    2 * number false results.reverse + cout.toNat =
      number false xs.reverse + (s.takesIn cin).toNat * 256 ^ xs.length := by
  induction h with
  | @nil s rotation cin =>
    rw [Shift.takesIn_of_rotation rotation]
    show 2 * 0 + cin.toNat = 0 + cin.toNat * 1
    omega
  | @cons s k c xs results cout first keeps rest ih =>
    have hdigit := s.value_right right c.carryFlag (c.content k)
    have hrest := ih (mt Shift.isLeft_next.mp right)
    rw [Shift.takesIn_next, first.carry_step] at hrest
    rw [first.content_step keeps, List.reverse_cons, List.reverse_cons, number_byte_concat,
      number_byte_concat, List.length_reverse, List.length_reverse, rest.length_results,
      List.length_cons]
    calc 2 * (number false results.reverse +
            256 ^ xs.length * (s.value c.carryFlag (c.content k)).toNat) + cout.toNat
        = (2 * number false results.reverse + cout.toNat) +
            256 ^ xs.length * (2 * (s.value c.carryFlag (c.content k)).toNat) := by ring
      _ = number false xs.reverse + 256 ^ xs.length *
            (2 * (s.value c.carryFlag (c.content k)).toNat + (s.carryOut (c.content k)).toNat) := by
          rw [hrest]; ring
      _ = number false xs.reverse + 256 ^ xs.length * (c.content k).toNat +
            (s.takesIn c.carryFlag).toNat * 256 ^ (xs.length + 1) := by
          rw [hdigit]; ring

/-- A chain that starts with no rotation has a first byte. -/
theorem length_pos (h : ShiftChain β s cin xs results cout) (hs : s.next ≠ s) :
    0 < xs.length := by
  cases h with
  | nil rotation => exact absurd rotation hs
  | cons => exact Nat.zero_lt_succ _

/-- **Doubling.** What does not fit is the top bit, and goes to the carry. -/
theorem double (h : ShiftChain β .asl cin xs results cout) :
    number false results = 2 * number false xs % 256 ^ xs.length ∧
      cout = (number false xs).testBit (8 * xs.length - 1) := by
  have hpos := h.length_pos nofun
  have hsum := h.number_left trivial
  have hlt := number_byte_lt results
  have hin : (Shift.asl.takesIn cin).toNat = 0 := rfl
  rw [hin, Nat.add_zero] at hsum
  rw [h.length_results] at hlt
  refine ⟨?_, ?_⟩
  · rw [← hsum, Nat.add_mul_mod_self_right, Nat.mod_eq_of_lt hlt]
  · rw [pow_bytes hpos] at hsum hlt
    exact eq_testBit_of_double hsum hlt

/-- **Halving.** What is left over goes to the carry. -/
theorem halve (h : ShiftChain β .lsr cin xs results cout) :
    number false results.reverse = number false xs.reverse / 2 ∧
      cout.toNat = number false xs.reverse % 2 := by
  have hsum := h.number_right not_false
  have hcout := cout.toNat_lt
  have hin : (Shift.lsr.takesIn cin).toNat = 0 := rfl
  rw [hin, Nat.zero_mul, Nat.add_zero] at hsum
  omega

end ShiftChain

end Cpu

/-! ## Shifts in place -/

namespace Bus

variable {β : Type u} [Bus β]

/-- Addresses that keep what is written to them. A write to one of them leaves the others alone. -/
def KeepsAll (bus : β) (as : List UInt16) : Prop :=
  ∀ a ∈ as, ∀ b, ∀ i ∈ as, read (write bus a b) i = if i = a then b else read bus i

end Bus

/-- Installed memory keeps what is written to it. -/
theorem Memory.keepsAll {m : Memory} {as : List UInt16} (h : ∀ a ∈ as, a.toNat < m.size) :
    Bus.KeepsAll m as := fun a ha b i _ => Memory.read_write (h a ha) i b

theorem Ram.keepsAll (m : Ram) (as : List UInt16) : Bus.KeepsAll m as := fun _ _ _ _ _ => rfl

namespace Cpu

variable {β : Type u} [Bus β] {γ : Type v} [Bus γ]

theorem keeps_of_keepsAll {c : Cpu β} {as : List UInt16} (h : Bus.KeepsAll c.bus as) {a : UInt16}
    (ha : a ∈ as) : c.Keeps (.memory a) := by
  intro b
  rw [h a ha b a ha, if_pos rfl]

/-- From one machine to another the bytes at the addresses and the carry are kept. -/
structure SameOn (as : List UInt16) (c d : Cpu β) : Prop where
  bytes : ∀ a ∈ as, Bus.read d.bus a = Bus.read c.bus a
  carry : d.carryFlag = c.carryFlag

/-- A shift leaves the bytes at the other addresses alone. -/
theorem SameOn.read_of_ne {as : List UInt16} {s : Shift} {a i : UInt16} {c c' : Cpu β}
    (same : SameOn as c.step.2 c') (h : c.Shifts s (.memory a)) (keeps : Bus.KeepsAll c.bus as)
    (ha : a ∈ as) (hi : i ∈ as) (hne : i ≠ a) : Bus.read c'.bus i = Bus.read c.bus i := by
  rw [same.bytes i hi, h.bus_step, keeps a ha _ i hi, if_neg hne]

/-- The bytes at some of the addresses are shifted in turn, from one machine to another: the first
by `s`, the others by rotations. In between anything may happen that keeps all the bytes and the
carry. -/
inductive InPlace (as : List UInt16) : (s : Shift) → (todo : List UInt16) → Cpu β → Cpu β → Prop
  | nil {s : Shift} (rotation : s.next = s) (c : Cpu β) : InPlace as s [] c c
  | cons {s : Shift} {a : UInt16} {todo : List UInt16} {c c' d : Cpu β}
    (first : c.Shifts s (.memory a)) (keeps : Bus.KeepsAll c.bus as)
    (same : SameOn as c.step.2 c') (rest : InPlace as s.next todo c' d) :
    InPlace as s (a :: todo) c d

namespace InPlace

variable {as todo : List UInt16} {s : Shift} {c d : Cpu β}

/-- Bytes that are not shifted stay as they are. -/
theorem frame (h : InPlace as s todo c d) (hsub : todo ⊆ as) {i : UInt16} (hi : i ∈ as)
    (hnot : i ∉ todo) : Bus.read d.bus i = Bus.read c.bus i := by
  induction h with
  | nil => rfl
  | @cons s a todo c c' d first keeps same rest ih =>
    obtain ⟨ha, hrest⟩ := List.cons_subset.mp hsub
    obtain ⟨hne, hlater⟩ := not_or.mp (mt List.mem_cons.mpr hnot)
    rw [ih hrest hlater, same.read_of_ne first keeps ha hi hne]

/-- **Shifts in place are a chain**, if no address comes twice. -/
theorem shiftChain (h : InPlace as s todo c d) (hsub : todo ⊆ as) (distinct : todo.Nodup) :
    ShiftChain β s c.carryFlag (todo.map (Bus.read c.bus)) (todo.map (Bus.read d.bus))
      d.carryFlag := by
  induction h with
  | nil rotation c => exact .nil rotation _
  | @cons s a todo c c' d first keeps same rest ih =>
    obtain ⟨ha, hrest⟩ := List.cons_subset.mp hsub
    obtain ⟨hnot, hdistinct⟩ := List.nodup_cons.mp distinct
    have hchain := ih hrest hdistinct
    -- the later bytes are those before the shift, and the shifted byte is not shifted again
    have hlater : todo.map (Bus.read c'.bus) = todo.map (Bus.read c.bus) :=
      List.map_congr_left fun i hi =>
        same.read_of_ne first keeps ha (hrest hi) fun he => hnot (he ▸ hi)
    have hshifted : Bus.read d.bus a = c.step.2.content (.memory a) := by
      rw [rest.frame hrest ha hnot, same.bytes a ha]
      rfl
    rw [same.carry, hlater] at hchain
    rw [List.map_cons, List.map_cons, hshifted]
    exact .cons first (keeps_of_keepsAll keeps ha) hchain

end InPlace

/-- **Shifts of many bytes.** Every shift succeeds. For numbers of any number of bytes, a chain that
executes ASL on the lowest byte, and then ROL on the others upwards, leaves twice the number without
what does not fit, and its top bit in the carry. A chain that executes LSR on the highest byte, and
then ROR on the others downwards, leaves half the number, and what is left over in the carry. The
same holds of the bytes in memory at distinct addresses that are shifted in place. The accumulator
and memory are no different: from the same byte and the same bit taken in, the same byte is left,
with the same flags. And ROL and ROR undo each other, in whatever cell. -/
theorem multi_byte_shifts :
    (∀ (s : Shift) (k : Cell) (c : Cpu β), c.Shifts s k → ∃ r, c.step.1 = .ok r) ∧
    (∀ (cin cout : Bool) (xs results : List UInt8), ShiftChain β .asl cin xs results cout →
      number false results = 2 * number false xs % 256 ^ xs.length ∧
        cout = (number false xs).testBit (8 * xs.length - 1)) ∧
    (∀ (cin cout : Bool) (xs results : List UInt8),
      ShiftChain β .lsr cin xs.reverse results.reverse cout →
        number false results = number false xs / 2 ∧ cout.toNat = number false xs % 2) ∧
    (∀ (as : List UInt16) (c d : Cpu β), as.Nodup → InPlace as .asl as c d →
      number false (as.map (Bus.read d.bus)) =
          2 * number false (as.map (Bus.read c.bus)) % 256 ^ as.length ∧
        d.carryFlag = (number false (as.map (Bus.read c.bus))).testBit (8 * as.length - 1)) ∧
    (∀ (as : List UInt16) (c d : Cpu β), as.Nodup → InPlace as .lsr as.reverse c d →
      number false (as.map (Bus.read d.bus)) = number false (as.map (Bus.read c.bus)) / 2 ∧
        d.carryFlag.toNat = number false (as.map (Bus.read c.bus)) % 2) ∧
    (∀ (s : Shift) (a : UInt16) (c : Cpu β) (d : Cpu γ), c.Shifts s .accumulator →
      d.Shifts s (.memory a) → Bus.read d.bus a = c.regs.a →
      s.takesIn d.carryFlag = s.takesIn c.carryFlag →
        d.step.2.bus = Bus.write d.bus a c.step.2.regs.a ∧
          ∀ mask ∈ [Status.carry, Status.zero, Status.negative],
            d.step.2.regs.p.contains mask = c.step.2.regs.p.contains mask) ∧
    ∀ (s t : Shift) (k : Cell) (c d : Cpu β), (s, t) ∈ Shift.opposites → c.Shifts s k →
      c.Keeps k → d.Shifts t k → d.Keeps k → d.content k = c.step.2.content k →
      d.carryFlag = c.step.2.carryFlag →
        d.step.2.content k = c.content k ∧ d.step.2.carryFlag = c.carryFlag := by
  refine ⟨?_, ?_, ?_, ?_, ?_, ?_, ?_⟩
  · intro s k c h
    exact h.step.1
  · intro cin cout xs results h
    exact h.double
  · intro cin cout xs results h
    have hhalf := h.halve
    rw [List.reverse_reverse, List.reverse_reverse] at hhalf
    exact hhalf
  · intro as c d distinct h
    have hdouble := (h.shiftChain (List.Subset.refl as) distinct).double
    rw [List.length_map] at hdouble
    exact hdouble
  · intro as c d distinct h
    have hsub : as.reverse ⊆ as := List.reverse_subset.mpr (List.Subset.refl as)
    have hhalf := (h.shiftChain hsub (List.nodup_reverse.mpr distinct)).halve
    rw [List.map_reverse, List.map_reverse, List.reverse_reverse, List.reverse_reverse] at hhalf
    exact hhalf
  · intro s a c d hc hd hbyte hin
    refine ⟨?_, hc.agree hd hbyte hin⟩
    rw [hd.bus_step, hc.a_step, hbyte, Shift.value_congr hin]
  · intro s t k c d hst hc hkeeps hd hkeeps' hcontent hcarry
    obtain ⟨hvalue, hout⟩ := Shift.value_back hst c.carryFlag (c.content k)
    rw [hd.content_step hkeeps', hd.carry_step, hcontent, hcarry, hc.content_step hkeeps,
      hc.carry_step]
    exact ⟨hvalue, hout⟩

/-- A machine with a program that doubles 0xC180 in the accumulator, halves 0x8183 in place, and
rotates the lower byte back. -/
def shifting : Cpu Ram :=
  .powerOn {} {} (.holding [(0, 0xA9), (1, 0x80), (2, 0x0A), (3, 0xA8), (4, 0xA9), (5, 0xC1),
    (6, 0x2A), (7, 0xA2), (8, 0x01), (9, 0x56), (10, 0x10), (11, 0xCA), (12, 0x76), (13, 0x10),
    (14, 0x26), (15, 0x10), (16, 0x83), (17, 0x81)])

/-- The machine before the lower byte is doubled. -/
def doublingLow : Cpu Ram := shifting.step.2

/-- The machine before the upper byte is doubled. -/
def doublingHigh : Cpu Ram := doublingLow.step.2.step.2.step.2

/-- The machine before the upper byte is halved. -/
def halvingHigh : Cpu Ram := doublingHigh.step.2.step.2

/-- The machine before the lower byte is halved. -/
def halvingLow : Cpu Ram := halvingHigh.step.2.step.2

/-- The machine before the lower byte is rotated back. -/
def rotatingBack : Cpu Ram := halvingLow.step.2

theorem multi_byte_shifts_shifting :
    ShiftChain Ram .asl false [0x80, 0xC1] [0x00, 0x83] true ∧
      number false [0x00, 0x83] = 2 * 0xC180 % 256 ^ 2 ∧
      InPlace [0x10, 0x11] .lsr [0x11, 0x10] halvingHigh rotatingBack ∧
      number false ([0x10, 0x11].map (Bus.read rotatingBack.bus)) = 0x8183 / 2 ∧
      Bus.read rotatingBack.step.2.bus 0x10 = doublingHigh.step.2.regs.a ∧
      rotatingBack.step.2.content (.memory 0x10) = 0x83 ∧ rotatingBack.step.2.carryFlag = true := by
  have hlow : doublingLow.Shifts .asl .accumulator := ⟨rfl, _, rfl, rfl⟩
  have hhigh : doublingHigh.Shifts .rol .accumulator := ⟨rfl, _, rfl, rfl⟩
  have hchain : ShiftChain Ram .asl false [0x80, 0xC1] [0x00, 0x83] true :=
    .cons hlow trivial (.cons hhigh trivial (.nil rfl _))
  have hsecond : halvingHigh.Shifts .lsr (.memory 0x11) := ⟨rfl, _, rfl, .zeroPageX, rfl, rfl⟩
  have hfirst : halvingLow.Shifts .ror (.memory 0x10) := ⟨rfl, _, rfl, .zeroPageX, rfl, rfl⟩
  have hback : rotatingBack.Shifts .rol (.memory 0x10) := ⟨rfl, _, rfl, .zeroPage, rfl, rfl⟩
  have hout : halvingHigh.step.2.carryFlag = true := rfl
  have hkept : halvingLow.carryFlag = true := rfl
  have hbetween : SameOn [0x10, 0x11] halvingHigh.step.2 halvingLow :=
    ⟨List.forall_mem_cons.mpr ⟨rfl, List.forall_mem_singleton.mpr rfl⟩, hkept.trans hout.symm⟩
  have hplace : InPlace [0x10, 0x11] .lsr [0x11, 0x10] halvingHigh rotatingBack :=
    .cons hsecond (Ram.keepsAll _ _) hbetween
      (.cons hfirst (Ram.keepsAll _ _) ⟨fun _ _ => rfl, rfl⟩ (.nil rfl _))
  obtain ⟨-, hdouble, -, -, hhalve, hagree, hundo⟩ := multi_byte_shifts (β := Ram) (γ := Ram)
  have hbytes : [0x10, 0x11].map (Bus.read halvingHigh.bus) = [0x83, 0x81] := rfl
  have ha : doublingHigh.regs.a = 0xC1 := rfl
  have hread : Bus.read rotatingBack.bus 0x10 = 0xC1 := rfl
  have hin : doublingHigh.carryFlag = true ∧ rotatingBack.carryFlag = true := ⟨rfl, rfl⟩
  refine ⟨hchain, (hdouble _ _ _ _ hchain).1, hplace, ?_, ?_, ?_⟩
  · rw [(hhalve [0x10, 0x11] _ _ (by decide) hplace).1, hbytes]
    rfl
  · have hwritten := (hagree _ _ _ _ hhigh hback (hread.trans ha.symm) (by rw [hin.1, hin.2])).1
    rw [hwritten]
    rfl
  · exact hundo .ror .rol _ _ _ (by decide) hfirst (keeps_of_keepsAll (Ram.keepsAll _ [0x10])
      (by decide)) hback (keeps_of_keepsAll (Ram.keepsAll _ [0x10]) (by decide)) rfl rfl

end Cpu

end Nmos6502
