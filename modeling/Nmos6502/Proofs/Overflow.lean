import Nmos6502.Proofs.Chains
import Nmos6502.Proofs.Footprints

/-!
# Carry and overflow

A program that compares signed numbers branches on the overflow of a difference, and one that counts
beyond a byte goes on with the carry. Neither flag is computed as what it means. The overflow looks
at three signs, and in decimal mode one of them is that of a byte that is neither the binary sum nor
the result. This module says what the flags mean: the carry of a sum that it does not fit a byte,
that of a difference that nothing was borrowed, and the overflow of either that the exact signed
result does not fit a byte.

## One reason for all of them

Three signs tell an overflow whenever the low halves of the bytes, with what is added to them, come
to no more than 31. That is `sumOverflows_iff`. In binary mode the low halves and a carry are at
most 31. In decimal mode the bytes count without their low halves, and what is added is the sum of
these after it was corrected, `lowDigits`, which is at most 31 as well. It is so also for bytes that
hold no decimal digits.

A difference is the sum with the complement, `subtractBinary_eq_addBinary`, and the complement is as
far below -1 as the byte is above 0. So a difference needs no reason of its own. Its flags come from
the binary difference in both modes.

## Main definitions

* `signed`, `OutOfRange` — a byte as a signed number, and the numbers that are none
* `lowDigits` — the corrected sum of two low digits
* `Cpu.Accumulates` — a step that changes the accumulator and flags for it

## Main results

* `sumOverflows_iff` — three signs tell an overflow
* `subtractBinary_eq_addBinary` — a difference is the sum with the complement
* `overflow_addBinary`, `overflow_addDecimal`, `overflow_subtract` — what the overflow means
* `Cpu.Operates.sbc_eq_adc` — the same of whole steps
* `Cpu.sums_and_differences_exact` — what ADC and SBC leave

-/

universe u v

namespace Nmos6502

/-! ## Signed bytes -/

/-- The byte as a signed number. -/
def signed (b : UInt8) : Int := b.toInt8.toInt

/-- The number does not fit a signed byte. -/
def OutOfRange (n : Int) : Prop := n < -128 ∨ 127 < n

instance (n : Int) : Decidable (OutOfRange n) := inferInstanceAs (Decidable (_ ∨ _))

theorem signed_eq (b : UInt8) :
    signed b = if b.toNat < 128 then (b.toNat : Int) else b.toNat - 256 :=
  forall_byte (P := fun b => signed b = if b.toNat < 128 then (b.toNat : Int) else b.toNat - 256)
    (by decide +kernel) b

theorem isNegative_eq (b : UInt8) : isNegative b = decide (¬ b.toNat < 128) :=
  forall_byte (P := fun b => isNegative b = decide (¬ b.toNat < 128)) (by decide +kernel) b

/-- **Three signs tell an overflow**, if what comes from the low halves is at most 31. -/
theorem sumOverflows_iff {x y value : UInt8} {rest : Nat}
    (hrest : x.toNat % 16 + y.toNat % 16 + rest ≤ 31)
    (hvalue : value.toNat = (x.toNat + y.toNat + rest) % 256) :
    sumOverflows x y value = true ↔ OutOfRange (signed x + signed y + rest) := by
  have hx := x.toNat_lt
  have hy := y.toNat_lt
  have hsigns : sumOverflows x y value = true ↔
      ((x.toNat < 128 ↔ y.toNat < 128) ∧ ¬ (x.toNat < 128 ↔ value.toNat < 128)) := by
    simp only [sumOverflows, isNegative_eq, Bool.and_eq_true, beq_iff_eq, bne_iff_ne, ne_eq,
      decide_eq_decide, not_iff_not]
  rw [hsigns, signed_eq, signed_eq, OutOfRange, hvalue]
  -- With different signs the sum is in range because the low halves are at most 31.
  split <;> split <;> omega

/-! ## Binary sums -/

theorem carry_addBinary (a m : UInt8) (cin : Bool) :
    (addBinary a m cin).carry = true ↔ 255 < a.toNat + m.toNat + cin.toNat :=
  decide_eq_true_iff

theorem toNat_value_addBinary (a m : UInt8) (cin : Bool) :
    (addBinary a m cin).value.toNat = (a.toNat + m.toNat + cin.toNat) % 256 :=
  UInt8.toNat_ofNat'

/-- **The overflow of a binary sum.** -/
theorem overflow_addBinary (a m : UInt8) (cin : Bool) :
    (addBinary a m cin).overflow = true ↔ OutOfRange (signed a + signed m + cin.toNat) := by
  have hc := cin.toNat_lt
  exact sumOverflows_iff (by omega) (toNat_value_addBinary a m cin)

/-! ## Decimal sums -/

/-- The sum of two low digits and a carry, as a decimal sum takes it: above 9 it is corrected to a
digit, with 16 for the carry into the high digits. -/
def lowDigits (a m : UInt8) (cin : Bool) : Nat :=
  let low := a.toNat % 16 + m.toNat % 16 + cin.toNat
  if 9 < low then (low + 6) % 16 + 16 else low

theorem toNat_highDigit (b : UInt8) : (b &&& 0xF0).toNat = b.toNat / 16 * 16 :=
  forall_byte (P := fun b => (b &&& 0xF0).toNat = b.toNat / 16 * 16) (by decide +kernel) b

/-- The sign of a byte is that of its high digit. -/
theorem isNegative_highDigit (b : UInt8) : isNegative (b &&& 0xF0) = isNegative b := by
  rw [isNegative_eq, isNegative_eq, toNat_highDigit, decide_eq_decide]
  omega

/-- **The overflow of a decimal sum.** It is that of the high digits and the corrected low ones. -/
theorem overflow_addDecimal (a m : UInt8) (cin : Bool) :
    (addDecimal a m cin).overflow = true ↔
      OutOfRange (signed (a &&& 0xF0) + signed (m &&& 0xF0) + lowDigits a m cin) := by
  obtain ⟨low, hlow⟩ : ∃ n, n = a.toNat % 16 + m.toNat % 16 + cin.toNat := ⟨_, rfl⟩
  have hdigits : lowDigits a m cin = if 9 < low then (low + 6) % 16 + 16 else low := by
    rw [hlow]
    rfl
  have hoverflow : (addDecimal a m cin).overflow = sumOverflows (a &&& 0xF0) (m &&& 0xF0)
      (UInt8.ofNat ((a.toNat / 16 + m.toNat / 16 + (if 15 < correctedSum low then 1 else 0)) * 16 +
        correctedSum low % 16)) := by
    rw [sumOverflows, isNegative_highDigit, isNegative_highDigit, hlow]
    rfl
  rw [hoverflow]
  refine sumOverflows_iff ?_ ?_
  · rw [toNat_highDigit, toNat_highDigit, hdigits]
    have hc := cin.toNat_lt
    split <;> omega
  · rw [UInt8.toNat_ofNat', toNat_highDigit, toNat_highDigit, hdigits, correctedSum]
    by_cases h : 9 < low
    · rw [if_pos h, if_pos h, if_pos (show 15 < low + 6 by omega)]
      omega
    · rw [if_neg h, if_neg h, if_neg (show ¬ 15 < low by omega)]
      omega

/-! ## Differences -/

theorem toNat_complement (m : UInt8) : (255 - m).toNat = 255 - m.toNat :=
  forall_byte (P := fun m => (255 - m).toNat = 255 - m.toNat) (by decide +kernel) m

/-- The complement is as far below -1 as the byte is above 0. -/
theorem signed_complement (m : UInt8) : signed (255 - m) = -1 - signed m := by
  have hm := m.toNat_lt
  rw [signed_eq, signed_eq, toNat_complement]
  split <;> split <;> omega

/-- The complement has the other sign. -/
theorem isNegative_complement (m : UInt8) : isNegative (255 - m) = !isNegative m := by
  have hm := m.toNat_lt
  rw [isNegative_eq, isNegative_eq, toNat_complement, ← decide_not, decide_eq_decide]
  omega

/-- **A difference is the sum with the complement**: the byte and both flags. -/
theorem subtractBinary_eq_addBinary (a m : UInt8) (cin : Bool) :
    subtractBinary a m cin = addBinary a (255 - m) cin := by
  have hm := m.toNat_lt
  -- The two numbers are 256 apart. So they give one byte, and the signs that decide the carries.
  have hsum : ((a.toNat + (255 - m).toNat + cin.toNat : Nat) : Int) = difference a m cin + 256 := by
    rw [toNat_complement, difference]
    cases cin <;> simp only [Bool.toNat_true, Bool.toNat_false, Bool.not_true, Bool.not_false] <;>
      omega
  have hvalue : (subtractBinary a m cin).value = (addBinary a (255 - m) cin).value := by
    refine UInt8.toNat_inj.mp ?_
    have hdifference : ((subtractBinary a m cin).value.toNat : Int) = difference a m cin % 256 :=
      toNat_ofInt _
    rw [toNat_value_addBinary]
    omega
  have hcarry : (subtractBinary a m cin).carry = (addBinary a (255 - m) cin).carry := by
    show decide (0 ≤ difference a m cin) = decide (255 < a.toNat + (255 - m).toNat + cin.toNat)
    rw [decide_eq_decide]
    omega
  have hoverflow : (subtractBinary a m cin).overflow = (addBinary a (255 - m) cin).overflow := by
    show differenceOverflows a m (subtractBinary a m cin).value =
      sumOverflows a (255 - m) (addBinary a (255 - m) cin).value
    rw [hvalue, differenceOverflows, sumOverflows, isNegative_complement]
    cases isNegative a <;> cases isNegative m <;> rfl
  calc subtractBinary a m cin
      = ⟨(subtractBinary a m cin).value, (subtractBinary a m cin).carry,
          (subtractBinary a m cin).overflow⟩ := rfl
    _ = addBinary a (255 - m) cin := by rw [hvalue, hcarry, hoverflow]

/-- The flags of a difference do not depend on the mode. -/
theorem carry_subtract (decimal : Bool) (a m : UInt8) (cin : Bool) :
    (subtract decimal a m cin).carry = true ↔ 0 ≤ (a.toNat : Int) - m.toNat - (!cin).toNat := by
  cases decimal <;> exact decide_eq_true_iff

/-- **The overflow of a difference**, in either mode. -/
theorem overflow_subtract (decimal : Bool) (a m : UInt8) (cin : Bool) :
    (subtract decimal a m cin).overflow = true ↔
      OutOfRange (signed a - signed m - (!cin).toNat) := by
  have hmode : (subtract decimal a m cin).overflow = (subtractBinary a m cin).overflow := by
    cases decimal <;> rfl
  have hnumber : signed a + signed (255 - m) + cin.toNat = signed a - signed m - (!cin).toNat := by
    rw [signed_complement]
    cases cin <;> simp only [Bool.toNat_true, Bool.toNat_false, Bool.not_true, Bool.not_false] <;>
      omega
  rw [hmode, subtractBinary_eq_addBinary, overflow_addBinary, hnumber]

/-! ## One instruction -/

namespace Cpu

variable {β : Type u} [Bus β] {γ : Type v} [Bus γ]

/-- A step that succeeds and changes the accumulator, with flags that describe it. X and Y, the
stack pointer, the bus and the flags I and D stay as they are. -/
structure Accumulates (c : Cpu β) : Prop where
  ok : ∃ s, c.step.1 = .ok s
  describes : c.step.2.regs.p.Describes c.step.2.regs.a
  x : c.step.2.regs.x = c.regs.x
  y : c.step.2.regs.y = c.regs.y
  s : c.step.2.regs.s = c.regs.s
  interruptDisable : c.step.2.regs.p.contains Status.interruptDisable =
    c.regs.p.contains Status.interruptDisable
  decimal : c.step.2.regs.p.contains Status.decimal = c.regs.p.contains Status.decimal
  bus : c.step.2.bus = c.bus

namespace Operates

variable {r : Reader} {decimal cin : Bool} {a m : UInt8} {c : Cpu β}

/-- An instruction with the footprint of a sum changes the accumulator alone. -/
theorem accumulates (h : c.Operates r decimal cin a m)
    (hr : r.footprint = .leaving .a [Status.overflow, Status.carry]) : c.Accumulates := by
  obtain ⟨o, p, ho, hop, -⟩ := h.opcode
  have hfootprint : c.footprint = .leaving .a [Status.overflow, Status.carry] := by
    rw [footprint_of_opcode h.due ho, hop]
    exact hr
  have hpointer : c.pointer = c.regs.s := by
    rw [pointer_of_opcode h.due ho, hop]
    rfl
  have hwrites : c.stepWrites = [] := by
    rw [stepWrites_of_opcode h.due ho, hop]
    rfl
  obtain ⟨hkeeps, hleaves, hs⟩ := c.keeps_step
  rw [hfootprint] at hkeeps hleaves
  obtain ⟨value, hvalue, hdescribes⟩ := hleaves .a rfl
  constructor
  · exact h.step.1
  · have ha : c.step.2.regs.a = value := hvalue
    rwa [ha]
  · exact hkeeps.x (by decide)
  · exact hkeeps.y (by decide)
  · rw [hs, hpointer]
  · exact hkeeps.p _ (by decide) (by decide)
  · exact hkeeps.p _ (by decide) (by decide)
  · rw [bus_step, hwrites]
    rfl

theorem step_status (h : c.Operates r decimal cin a m) {t : Total}
    (ht : r.apply c.regs m = c.regs.take t) : c.step.2.regs.p = (c.regs.take t).p := by
  obtain ⟨-, n, hregs⟩ := h.step
  rw [hregs, ht]
  rfl

theorem overflow_adc (h : c.Operates .adc decimal cin a m) :
    c.step.2.regs.p.contains Status.overflow = (add decimal a m cin).overflow := by
  rw [h.step_status h.apply_adc, Registers.overflow_take]

theorem overflow_sbc (h : c.Operates .sbc decimal cin a m) :
    c.step.2.regs.p.contains Status.overflow = (subtract decimal a m cin).overflow := by
  rw [h.step_status h.apply_sbc, Registers.overflow_take]

/-- **A binary difference leaves what the sum with the complement leaves.** -/
theorem sbc_eq_adc {d : Cpu γ} (h : c.Operates .sbc false cin a m)
    (hd : d.Operates .adc false cin a (255 - m)) (hp : d.regs.p = c.regs.p) :
    d.step.2.regs.a = c.step.2.regs.a ∧ d.step.2.regs.p = c.step.2.regs.p := by
  have htotal : add false a (255 - m) cin = subtract false a m cin :=
    (subtractBinary_eq_addBinary a m cin).symm
  constructor
  · rw [hd.step_adc.1, h.step_sbc.1, htotal]
  · rw [hd.step_status hd.apply_adc, h.step_status h.apply_sbc, htotal, Registers.take,
      Registers.take, hp]

end Operates

/-- **What ADC and SBC leave.** Take any machine that is about to execute one of the two, in
whatever mode of address and on whatever bus, with accumulator `a` and operand `m`. The step
succeeds and changes nothing but the accumulator and its flags, and zero and negative describe the
accumulator.

A binary sum is exact modulo 256, with the carry for 256 and the overflow for a signed sum out of
range. The overflow of a decimal sum is that of the high digits and the corrected sum of the low
ones, also if the digits are not decimal. A difference sets both flags for the exact binary
difference in either mode. In binary mode it leaves the accumulator and the status that the sum with
the complement leaves from the same registers, on whatever machine. -/
theorem sums_and_differences_exact (c : Cpu β) (decimal cin : Bool) (a m : UInt8) :
    (c.Operates .adc decimal cin a m →
      c.Accumulates ∧
      (decimal = false →
        c.step.2.regs.a.toNat = (a.toNat + m.toNat + cin.toNat) % 256 ∧
        (c.step.2.regs.p.contains Status.carry = true ↔ 255 < a.toNat + m.toNat + cin.toNat) ∧
        (c.step.2.regs.p.contains Status.overflow = true ↔
          OutOfRange (signed a + signed m + cin.toNat))) ∧
      (decimal = true →
        (c.step.2.regs.p.contains Status.overflow = true ↔
          OutOfRange (signed (a &&& 0xF0) + signed (m &&& 0xF0) + lowDigits a m cin)))) ∧
    (c.Operates .sbc decimal cin a m →
      c.Accumulates ∧
      (c.step.2.regs.p.contains Status.carry = true ↔
        0 ≤ (a.toNat : Int) - m.toNat - (!cin).toNat) ∧
      (c.step.2.regs.p.contains Status.overflow = true ↔
        OutOfRange (signed a - signed m - (!cin).toNat)) ∧
      (decimal = false → ∀ d : Cpu γ, d.Operates .adc false cin a (255 - m) →
        d.regs.p = c.regs.p →
          d.step.2.regs.a = c.step.2.regs.a ∧ d.step.2.regs.p = c.step.2.regs.p)) := by
  constructor
  · intro h
    refine ⟨h.accumulates rfl, ?_, ?_⟩
    · rintro rfl
      rw [h.step_adc.1, h.step_adc.2, h.overflow_adc]
      exact ⟨toNat_value_addBinary a m cin, carry_addBinary a m cin, overflow_addBinary a m cin⟩
    · rintro rfl
      rw [h.overflow_adc]
      exact overflow_addDecimal a m cin
  · intro h
    refine ⟨h.accumulates rfl, ?_, ?_, ?_⟩
    · rw [h.step_sbc.2]
      exact carry_subtract decimal a m cin
    · rw [h.overflow_sbc]
      exact overflow_subtract decimal a m cin
    · rintro rfl d hd hp
      exact h.sbc_eq_adc hd hp

/-- A machine with the carry set that is about to execute an immediate instruction on `a` and `m`.
The first instruction of its program selects the mode. -/
def atImmediate (mode opcode a m : UInt8) : Cpu Ram :=
  (powerOn {} {} (.holding [(0, mode), (1, 0x38), (2, 0xA9), (3, a), (4, opcode),
    (5, m)])).step.2.step.2.step.2

/-- The decimal sum of 79 and a carry overflows, where the binary one does not. The difference of 80
and -80 overflows and borrows, and leaves the status that the sum with the complement leaves. -/
theorem sums_and_differences_exact_atBounds :
    (atImmediate 0xF8 0x69 0x79 0x00).step.2.regs.p.contains Status.overflow = true ∧
      ¬ OutOfRange (signed 0x79 + signed 0x00 + 1) ∧
      (atImmediate 0xD8 0xE9 0x50 0xB0).step.2.regs.p.contains Status.overflow = true ∧
      (atImmediate 0xD8 0xE9 0x50 0xB0).step.2.regs.p.contains Status.carry ≠ true ∧
      (atImmediate 0xD8 0x69 0x50 0x4F).step.2.regs.p =
        (atImmediate 0xD8 0xE9 0x50 0xB0).step.2.regs.p := by
  have hdecimal : (atImmediate 0xF8 0x69 0x79 0x00).Operates .adc true true 0x79 0x00 :=
    ⟨rfl, ⟨_, .immediate, rfl, rfl, rfl⟩, rfl, rfl, rfl⟩
  have hdifference : (atImmediate 0xD8 0xE9 0x50 0xB0).Operates .sbc false true 0x50 0xB0 :=
    ⟨rfl, ⟨_, .immediate, rfl, rfl, rfl⟩, rfl, rfl, rfl⟩
  have hsum : (atImmediate 0xD8 0x69 0x50 0x4F).Operates .adc false true 0x50 (255 - 0xB0) :=
    ⟨rfl, ⟨_, .immediate, rfl, rfl, rfl⟩, rfl, rfl, rfl⟩
  obtain ⟨-, -, hoverflow⟩ :=
    (sums_and_differences_exact (γ := Ram) _ true true 0x79 0x00).1 hdecimal
  obtain ⟨-, hborrow, hsigned, hsame⟩ :=
    (sums_and_differences_exact (γ := Ram) _ false true 0x50 0xB0).2 hdifference
  exact ⟨(hoverflow rfl).mpr (by decide), by decide, hsigned.mpr (by decide),
    mt hborrow.mp (by decide), (hsame rfl _ hsum rfl).2⟩

end Cpu

end Nmos6502
