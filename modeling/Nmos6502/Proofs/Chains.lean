import Mathlib.Data.Nat.Digits.Defs
import Mathlib.Tactic.LinearCombination
import Mathlib.Tactic.Ring
import Nmos6502.Proofs.Flow
import Nmos6502.Proofs.Ram
import Nmos6502.Proofs.Status

/-!
# Sums and differences of many bytes

Numbers of many bytes are added from the lowest byte up, with the carry of each addition going into
the next, and subtracted in the same way. This module shows that this works, in binary and in
decimal mode, for any number of bytes: what ADC leaves is the sum and what SBC leaves the
difference, and the last carry is the overflow of the sum, or says of the difference that nothing
was borrowed.

## One byte

In binary mode a byte is a digit of base 256. In decimal mode it is two decimal digits, and together
they are one digit of base 100. The machine corrects the two one after the other, and takes the
carry of a decimal difference from the binary one; for decimal digits that is the same carry. So in
either mode one ADC or SBC is one digit of a sum or a difference, `value_add` and `value_subtract`,
and from there on the mode does not matter.

## A chain

`Cpu.Chain` says which machines are meant. Each is about to execute ADC, or each SBC, on the next
two bytes, in whatever mode of address and on whatever bus. From one machine to the next anything
may happen, except that the mode and the carry are kept. A chain of instructions is then a chain of
digits, by one induction for sums and one for differences.

## Main definitions

* `Packed`, `packedValue` — bytes of two decimal digits
* `radix`, `byteValue`, `IsNumeral` — bytes as digits, in either mode
* `number` — bytes as a number, the lowest first
* `Cpu.Operates`, `Cpu.Chain` — one instruction, and many

## Main results

* `value_add`, `value_subtract` — one digit
* `Cpu.Chain.number_add`, `Cpu.Chain.number_subtract` — a chain of digits
* `Cpu.multi_byte_arithmetic` — sums and differences of many bytes
-/

universe u

namespace Nmos6502

/-! ## One byte in binary mode -/

theorem toNat_decide (p : Prop) [Decidable p] : (decide p).toNat = if p then 1 else 0 := by
  by_cases h : p <;> simp [h]

theorem toNat_ofInt (n : Int) : ((UInt8.ofInt n).toNat : Int) = n % 256 := by
  rw [UInt8.ofInt, UInt8.toNat_ofNat']
  omega

/-- A difference borrows if it is negative. -/
theorem borrow_subtractBinary (x y : UInt8) (cin : Bool) :
    (!(subtractBinary x y cin).carry).toNat = if difference x y cin < 0 then 1 else 0 := by
  have hcarry : (!(subtractBinary x y cin).carry) = decide (¬ 0 ≤ difference x y cin) :=
    decide_not.symm
  rw [hcarry, toNat_decide]
  simp only [Int.not_le]

theorem value_addBinary (x y : UInt8) (cin : Bool) :
    (addBinary x y cin).value.toNat + 256 * (addBinary x y cin).carry.toNat =
      x.toNat + y.toNat + cin.toNat := by
  have hx := x.toNat_lt
  have hy := y.toNat_lt
  have hc := cin.toNat_lt
  simp only [addBinary, UInt8.toNat_ofNat', toNat_decide]
  split <;> omega

theorem value_subtractBinary (x y : UInt8) (cin : Bool) :
    ((subtractBinary x y cin).value.toNat : Int) -
        256 * (!(subtractBinary x y cin).carry).toNat =
      x.toNat - y.toNat - (!cin).toNat := by
  have hx := x.toNat_lt
  have hy := y.toNat_lt
  have hc := (!cin).toNat_lt
  have hvalue : ((subtractBinary x y cin).value.toNat : Int) = difference x y cin % 256 :=
    toNat_ofInt _
  rw [borrow_subtractBinary, hvalue, difference]
  split <;> omega

/-! ## One byte in decimal mode -/

/-- The byte holds two decimal digits. -/
def Packed (b : UInt8) : Prop := b.toNat / 16 ≤ 9 ∧ b.toNat % 16 ≤ 9

instance (b : UInt8) : Decidable (Packed b) := inferInstanceAs (Decidable (_ ∧ _))

/-- The number that two decimal digits make. -/
def packedValue (b : UInt8) : Nat := b.toNat / 16 * 10 + b.toNat % 16

/-- A byte that is put together from two digits, the ones first. -/
theorem packed_of_digits {b : UInt8} {tens ones : Int}
    (hb : (b.toNat : Int) = (tens * 16 + ones) % 256) (hlow : 0 ≤ ones) (hones : ones ≤ 9)
    (htens : tens % 16 ≤ 9) : Packed b ∧ (packedValue b : Int) = tens % 16 * 10 + ones := by
  have hbyte : (tens * 16 + ones) % 256 = tens % 16 * 16 + ones := by omega
  rw [hbyte] at hb
  rw [Packed, packedValue]
  omega

/-- Corrected, a digit of a sum is a decimal digit, and what it carries is ten. -/
theorem correctedSum_digit {d : Nat} (h : d ≤ 19) :
    correctedSum d % 16 ≤ 9 ∧
      correctedSum d % 16 + 10 * (if 15 < correctedSum d then 1 else 0) = d := by
  by_cases hd : 9 < d
  · rw [correctedSum, if_pos hd, if_pos (show 15 < d + 6 by omega)]
    omega
  · rw [correctedSum, if_neg hd, if_neg (show ¬ 15 < d by omega)]
    omega

/-- Corrected, a digit of a difference is a decimal digit, and what it borrows is ten. -/
theorem correctedDifference_digit {d : Int} (hlow : -10 ≤ d) (hhigh : d ≤ 9) :
    0 ≤ correctedDifference d % 16 ∧ correctedDifference d % 16 ≤ 9 ∧
      correctedDifference d % 16 - 10 * (if d < 0 then 1 else 0) = d := by
  by_cases hd : d < 0
  · rw [correctedDifference, if_pos hd, if_pos hd]
    omega
  · rw [correctedDifference, if_neg hd, if_neg hd]
    omega

theorem value_addDecimal {x y : UInt8} (hx : Packed x) (hy : Packed y) (cin : Bool) :
    Packed (addDecimal x y cin).value ∧
      packedValue (addDecimal x y cin).value + 100 * (addDecimal x y cin).carry.toNat =
        packedValue x + packedValue y + cin.toNat := by
  have hc := cin.toNat_lt
  obtain ⟨hxtens, hxones⟩ := hx
  obtain ⟨hytens, hyones⟩ := hy
  have hones := correctedSum_digit (d := x.toNat % 16 + y.toNat % 16 + cin.toNat) (by omega)
  simp only [addDecimal, toNat_decide]
  generalize correctedSum (x.toNat % 16 + y.toNat % 16 + cin.toNat) = ones at hones ⊢
  generalize (if 15 < ones then 1 else 0) = carried at hones ⊢
  have htens := correctedSum_digit (d := x.toNat / 16 + y.toNat / 16 + carried) (by omega)
  generalize correctedSum (x.toNat / 16 + y.toNat / 16 + carried) = tens at htens ⊢
  generalize (if 15 < tens then 1 else 0) = carry at htens ⊢
  have hbyte : ((UInt8.ofNat (tens * 16 + ones % 16)).toNat : Int) =
      ((tens : Int) * 16 + (ones % 16 : Nat)) % 256 := by
    rw [UInt8.toNat_ofNat']
    omega
  obtain ⟨hpacked, hvalue⟩ := packed_of_digits hbyte (by omega) (by omega) (by omega)
  refine ⟨hpacked, ?_⟩
  show _ + _ = (x.toNat / 16 * 10 + x.toNat % 16) + (y.toNat / 16 * 10 + y.toNat % 16) + cin.toNat
  omega

/-- The digits of a difference, and what it borrows as a whole: its sign is that of the tens after
the ones have borrowed, in base 16 as in base 10. -/
theorem digits_of_difference {tens ones : Int} (htens : -9 ≤ tens ∧ tens ≤ 9)
    (hones : -10 ≤ ones ∧ ones ≤ 9) :
    correctedDifference (tens - if ones < 0 then 1 else 0) % 16 ≤ 9 ∧
      correctedDifference (tens - if ones < 0 then 1 else 0) % 16 * 10 +
          correctedDifference ones % 16 - 100 * (if 16 * tens + ones < 0 then 1 else 0) =
        10 * tens + ones := by
  have hsign : 16 * tens + ones < 0 ↔ (tens - if ones < 0 then 1 else 0) < 0 := by
    split <;> omega
  have honesDigit := correctedDifference_digit hones.1 hones.2
  have htensDigit := correctedDifference_digit (d := tens - if ones < 0 then 1 else 0)
    (by split <;> omega) (by split <;> omega)
  simp only [hsign]
  omega

/-- For decimal digits the binary difference and the decimal one borrow together. -/
theorem value_subtractDecimal {x y : UInt8} (hx : Packed x) (hy : Packed y) (cin : Bool) :
    Packed (decimalDifference x y cin) ∧
      (packedValue (decimalDifference x y cin) : Int) -
          100 * (!(subtractBinary x y cin).carry).toNat =
        packedValue x - packedValue y - (!cin).toNat := by
  have hc := (!cin).toNat_lt
  obtain ⟨hxtens, hxones⟩ := hx
  obtain ⟨hytens, hyones⟩ := hy
  obtain ⟨tens, htens⟩ : ∃ d, d = ((x.toNat / 16 : Nat) : Int) - (y.toNat / 16 : Nat) := ⟨_, rfl⟩
  obtain ⟨ones, hones⟩ : ∃ d, d = ((x.toNat % 16 : Nat) : Int) - (y.toNat % 16 : Nat) -
    (!cin).toNat := ⟨_, rfl⟩
  have hbyte : ((decimalDifference x y cin).toNat : Int) =
      (correctedDifference (tens - if ones < 0 then 1 else 0) * 16 +
        correctedDifference ones % 16) % 256 := by
    rw [htens, hones]
    exact toNat_ofInt _
  have hbinary : difference x y cin = 16 * tens + ones := by
    rw [difference]
    omega
  have htensRange : -9 ≤ tens ∧ tens ≤ 9 := by omega
  have honesRange : -10 ≤ ones ∧ ones ≤ 9 := by omega
  have honesDigit := correctedDifference_digit honesRange.1 honesRange.2
  obtain ⟨htensDigit, htotal⟩ := digits_of_difference htensRange honesRange
  obtain ⟨hpacked, hvalue⟩ := packed_of_digits hbyte honesDigit.1 honesDigit.2.1 htensDigit
  refine ⟨hpacked, ?_⟩
  rw [borrow_subtractBinary, hbinary, hvalue, packedValue, packedValue]
  push_cast
  omega

/-! ## One byte in either mode -/

/-- The base of which a byte is a digit. -/
def radix (decimal : Bool) : Nat := if decimal then 100 else 256

/-- The byte is a digit in the given mode. -/
def IsNumeral (decimal : Bool) (b : UInt8) : Prop := decimal = true → Packed b

instance (decimal : Bool) (b : UInt8) : Decidable (IsNumeral decimal b) :=
  inferInstanceAs (Decidable (_ → _))

/-- The digit that a byte is. -/
def byteValue (decimal : Bool) (b : UInt8) : Nat := if decimal then packedValue b else b.toNat

/-- **ADC is one digit of a sum.** -/
theorem value_add {decimal : Bool} {x y : UInt8} (hx : IsNumeral decimal x)
    (hy : IsNumeral decimal y) (cin : Bool) :
    IsNumeral decimal (add decimal x y cin).value ∧
      byteValue decimal (add decimal x y cin).value +
          radix decimal * (add decimal x y cin).carry.toNat =
        byteValue decimal x + byteValue decimal y + cin.toNat := by
  cases decimal with
  | false => exact ⟨nofun, value_addBinary x y cin⟩
  | true =>
    obtain ⟨hpacked, hvalue⟩ := value_addDecimal (hx rfl) (hy rfl) cin
    exact ⟨fun _ => hpacked, hvalue⟩

/-- **SBC is one digit of a difference.** -/
theorem value_subtract {decimal : Bool} {x y : UInt8} (hx : IsNumeral decimal x)
    (hy : IsNumeral decimal y) (cin : Bool) :
    IsNumeral decimal (subtract decimal x y cin).value ∧
      (byteValue decimal (subtract decimal x y cin).value : Int) -
          radix decimal * (!(subtract decimal x y cin).carry).toNat =
        byteValue decimal x - byteValue decimal y - (!cin).toNat := by
  cases decimal with
  | false => exact ⟨nofun, value_subtractBinary x y cin⟩
  | true =>
    obtain ⟨hpacked, hvalue⟩ := value_subtractDecimal (hx rfl) (hy rfl) cin
    exact ⟨fun _ => hpacked, hvalue⟩

/-- The number that bytes make, the lowest first. -/
def number (decimal : Bool) (bs : List UInt8) : Nat :=
  Nat.ofDigits (radix decimal) (bs.map (byteValue decimal))

theorem number_cons (decimal : Bool) (b : UInt8) (bs : List UInt8) :
    number decimal (b :: bs) = byteValue decimal b + radix decimal * number decimal bs := rfl

/-! ## One instruction -/

namespace Registers

/-- The flags that a sum or a difference is taken with, apart from those for its result. -/
theorem contains_take (r : Registers) (t : Total) {mask : UInt8} (hm : mask ∈ Status.flags)
    (hz : mask ≠ Status.zero) (hn : mask ≠ Status.negative) :
    (r.take t).p.contains mask = if mask = Status.overflow then t.overflow else
      if mask = Status.carry then t.carry else r.p.contains mask := by
  show (((r.p.set Status.carry t.carry).set Status.overflow t.overflow).setZN t.value).contains
    mask = _
  rw [Status.contains_setZN _ hm hz hn, Status.contains_set _ (by decide) hm,
    Status.contains_set _ (by decide) hm]

theorem carry_take (r : Registers) (t : Total) :
    (r.take t).p.contains Status.carry = t.carry :=
  r.contains_take t (by decide) (by decide) (by decide)

theorem overflow_take (r : Registers) (t : Total) :
    (r.take t).p.contains Status.overflow = t.overflow :=
  r.contains_take t (by decide) (by decide) (by decide)

end Registers

namespace Cpu

variable {β : Type u} [Bus β]

/-- The machine is about to execute the instruction `r`, in whatever mode of address: nothing is to
be served before it, the accumulator is `x`, the operand is `y`, and decimal mode and carry are as
given. -/
structure Operates (r : Reader) (decimal cin : Bool) (x y : UInt8) (c : Cpu β) : Prop where
  due : c.due? = none
  opcode : ∃ o p, c.opcode? = some o ∧ o.operation = .read r p ∧ Bus.read c.bus (c.address p) = y
  a : c.regs.a = x
  mode : c.regs.p.contains Status.decimal = decimal
  carry : c.regs.p.contains Status.carry = cin

namespace Operates

variable {r : Reader} {decimal cin : Bool} {x y : UInt8} {c : Cpu β}

/-- The step succeeds, and does to the registers what the instruction does with its operand. -/
theorem step (h : c.Operates r decimal cin x y) :
    (∃ s, c.step.1 = .ok s) ∧ ∃ n, c.step.2.regs = (r.apply c.regs y).advance n := by
  obtain ⟨o, p, ho, hop, hy⟩ := h.opcode
  obtain ⟨hreport, hregs⟩ := step_of_opcode h.due ho
  refine ⟨⟨_, hreport⟩, o.operation.size, ?_⟩
  rw [hregs, hop, ← hy]
  rfl

theorem step_take (h : c.Operates r decimal cin x y) {t : Total}
    (ht : r.apply c.regs y = c.regs.take t) :
    c.step.2.regs.a = t.value ∧ c.step.2.regs.p.contains Status.carry = t.carry := by
  obtain ⟨-, n, hregs⟩ := h.step
  rw [hregs, ht]
  exact ⟨rfl, c.regs.carry_take t⟩

theorem apply_adc (h : c.Operates .adc decimal cin x y) :
    Reader.adc.apply c.regs y = c.regs.take (add decimal x y cin) := by
  rw [Reader.apply, h.a, h.mode, h.carry]

theorem apply_sbc (h : c.Operates .sbc decimal cin x y) :
    Reader.sbc.apply c.regs y = c.regs.take (subtract decimal x y cin) := by
  rw [Reader.apply, h.a, h.mode, h.carry]

theorem step_adc (h : c.Operates .adc decimal cin x y) :
    c.step.2.regs.a = (add decimal x y cin).value ∧
      c.step.2.regs.p.contains Status.carry = (add decimal x y cin).carry :=
  h.step_take h.apply_adc

theorem step_sbc (h : c.Operates .sbc decimal cin x y) :
    c.step.2.regs.a = (subtract decimal x y cin).value ∧
      c.step.2.regs.p.contains Status.carry = (subtract decimal x y cin).carry :=
  h.step_take h.apply_sbc

end Operates

/-! ## Many instructions -/

/-- An instruction is executed on each pair of bytes of two numbers, from the lowest up. The carry
that one leaves is the carry that the next finds, and the mode is the same for all. The results are
what the accumulator then holds, and the last carry is left over. -/
inductive Chain (β : Type u) [Bus β] (r : Reader) (decimal : Bool) :
    (cin : Bool) → (xs ys results : List UInt8) → (cout : Bool) → Prop
  | nil (cin : Bool) : Chain β r decimal cin [] [] [] cin
  | cons {c : Cpu β} {cin cout : Bool} {x y : UInt8} {xs ys results : List UInt8}
    (first : c.Operates r decimal cin x y)
    (rest : Chain β r decimal (c.step.2.regs.p.contains Status.carry) xs ys results cout) :
    Chain β r decimal cin (x :: xs) (y :: ys) (c.step.2.regs.a :: results) cout

namespace Chain

variable {decimal cin cout : Bool} {xs ys results : List UInt8}

/-- **A chain of ADC is a sum.** -/
theorem number_add (h : Chain β .adc decimal cin xs ys results cout)
    (hx : ∀ b ∈ xs, IsNumeral decimal b) (hy : ∀ b ∈ ys, IsNumeral decimal b) :
    (∀ b ∈ results, IsNumeral decimal b) ∧
      number decimal results + cout.toNat * radix decimal ^ xs.length =
        number decimal xs + number decimal ys + cin.toNat := by
  induction h with
  | nil cin =>
    refine ⟨nofun, ?_⟩
    show 0 + cin.toNat * 1 = 0 + 0 + cin.toNat
    omega
  | @cons c cin cout x y xs ys results first rest ih =>
    obtain ⟨hxfirst, hxrest⟩ := List.forall_mem_cons.mp hx
    obtain ⟨hyfirst, hyrest⟩ := List.forall_mem_cons.mp hy
    obtain ⟨hvalue, hcarry⟩ := first.step_adc
    obtain ⟨hnumeral, hdigit⟩ := value_add hxfirst hyfirst cin
    obtain ⟨hresults, hsum⟩ := ih hxrest hyrest
    rw [hcarry] at hsum
    rw [hvalue]
    refine ⟨List.forall_mem_cons.mpr ⟨hnumeral, hresults⟩, ?_⟩
    rw [number_cons, number_cons, number_cons, List.length_cons]
    calc byteValue decimal (add decimal x y cin).value + radix decimal * number decimal results +
          cout.toNat * radix decimal ^ (xs.length + 1)
        = byteValue decimal (add decimal x y cin).value +
            radix decimal * (number decimal results + cout.toNat * radix decimal ^ xs.length) := by
          ring
      _ = (byteValue decimal (add decimal x y cin).value +
            radix decimal * (add decimal x y cin).carry.toNat) +
            radix decimal * (number decimal xs + number decimal ys) := by rw [hsum]; ring
      _ = byteValue decimal x + radix decimal * number decimal xs +
            (byteValue decimal y + radix decimal * number decimal ys) + cin.toNat := by
          rw [hdigit]; ring

/-- **A chain of SBC is a difference.** -/
theorem number_subtract (h : Chain β .sbc decimal cin xs ys results cout)
    (hx : ∀ b ∈ xs, IsNumeral decimal b) (hy : ∀ b ∈ ys, IsNumeral decimal b) :
    (∀ b ∈ results, IsNumeral decimal b) ∧
      (number decimal results : Int) - (!cout).toNat * radix decimal ^ xs.length =
        number decimal xs - number decimal ys - (!cin).toNat := by
  induction h with
  | nil cin =>
    refine ⟨nofun, ?_⟩
    show (0 : Int) - (!cin).toNat * 1 = 0 - 0 - (!cin).toNat
    omega
  | @cons c cin cout x y xs ys results first rest ih =>
    obtain ⟨hxfirst, hxrest⟩ := List.forall_mem_cons.mp hx
    obtain ⟨hyfirst, hyrest⟩ := List.forall_mem_cons.mp hy
    obtain ⟨hvalue, hcarry⟩ := first.step_sbc
    obtain ⟨hnumeral, hdigit⟩ := value_subtract hxfirst hyfirst cin
    obtain ⟨hresults, hdifference⟩ := ih hxrest hyrest
    rw [hcarry] at hdifference
    rw [hvalue]
    refine ⟨List.forall_mem_cons.mpr ⟨hnumeral, hresults⟩, ?_⟩
    rw [number_cons, number_cons, number_cons, List.length_cons]
    push_cast
    linear_combination hdigit + (radix decimal : Int) * hdifference

end Chain

/-- **Arithmetic of many bytes.** Wherever the machine is about to execute ADC or SBC, it does so
without a fault. For numbers of any length, a chain of ADC leaves the bytes of the sum with the last
carry above them, and a chain of SBC leaves the bytes of the difference with the last borrow below
zero: in base 256 in binary mode, and in base 100 in decimal mode, where the bytes of two decimal
digits lead to such bytes again. -/
theorem multi_byte_arithmetic (decimal : Bool) :
    (∀ (r : Reader) (cin : Bool) (x y : UInt8) (c : Cpu β), c.Operates r decimal cin x y →
      ∃ s, c.step.1 = .ok s) ∧
    (∀ (cin cout : Bool) (xs ys results : List UInt8),
      Chain β .adc decimal cin xs ys results cout → (∀ b ∈ xs, IsNumeral decimal b) →
      (∀ b ∈ ys, IsNumeral decimal b) →
        (∀ b ∈ results, IsNumeral decimal b) ∧
          number decimal results + cout.toNat * radix decimal ^ xs.length =
            number decimal xs + number decimal ys + cin.toNat) ∧
    ∀ (cin cout : Bool) (xs ys results : List UInt8),
      Chain β .sbc decimal cin xs ys results cout → (∀ b ∈ xs, IsNumeral decimal b) →
      (∀ b ∈ ys, IsNumeral decimal b) →
        (∀ b ∈ results, IsNumeral decimal b) ∧
          (number decimal results : Int) - (!cout).toNat * radix decimal ^ xs.length =
            number decimal xs - number decimal ys - (!cin).toNat := by
  refine ⟨?_, ?_, ?_⟩
  · intro r cin x y c h
    exact h.step.1
  · intro cin cout xs ys results h hx hy
    exact h.number_add hx hy
  · intro cin cout xs ys results h hx hy
    exact h.number_subtract hx hy

/-- A machine with a program that adds 203 to 199 in decimal mode. -/
def summing : Cpu Ram :=
  .powerOn {} {} (.holding [(0, 0xF8), (1, 0x18), (2, 0xA9), (3, 0x99), (4, 0x69), (5, 0x03),
    (6, 0xAA), (7, 0xA9), (8, 0x01), (9, 0x69), (10, 0x02)])

/-- The machine before the lower bytes are added. -/
def summingLow : Cpu Ram := summing.step.2.step.2.step.2

/-- The machine before the upper bytes are added. -/
def summingHigh : Cpu Ram := summingLow.step.2.step.2.step.2

theorem multi_byte_arithmetic_summing :
    Chain Ram .adc true false [0x99, 0x01] [0x03, 0x02] [0x02, 0x04] false ∧
      number true [0x02, 0x04] + 0 * 100 ^ 2 = 199 + 203 + 0 := by
  have hlow : summingLow.Operates .adc true false 0x99 0x03 :=
    ⟨rfl, ⟨_, .immediate, rfl, rfl, rfl⟩, rfl, rfl, rfl⟩
  have hhigh : summingHigh.Operates .adc true true 0x01 0x02 :=
    ⟨rfl, ⟨_, .immediate, rfl, rfl, rfl⟩, rfl, rfl, rfl⟩
  have hchain : Chain Ram .adc true false [0x99, 0x01] [0x03, 0x02] [0x02, 0x04] false :=
    .cons hlow (.cons hhigh (.nil _))
  have hx : ∀ b ∈ [0x99, 0x01], IsNumeral true b :=
    List.forall_mem_cons.mpr ⟨by decide, List.forall_mem_singleton.mpr (by decide)⟩
  have hy : ∀ b ∈ [0x03, 0x02], IsNumeral true b :=
    List.forall_mem_cons.mpr ⟨by decide, List.forall_mem_singleton.mpr (by decide)⟩
  refine ⟨hchain, ?_⟩
  exact ((multi_byte_arithmetic true).2.1 _ _ _ _ _ hchain hx hy).2

end Cpu

end Nmos6502
