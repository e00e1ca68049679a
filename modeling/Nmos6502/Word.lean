/-!
# Bytes and words

The machine moves bytes and computes addresses in words of two bytes, low byte first. This module
holds the few operations that join the two widths: building a word, taking it apart, staying in a
page, and moving by a signed displacement.

Everything is stated on `UInt8` and `UInt16`, so wrapping at 8 and at 16 bits is the arithmetic of
the types and not a rule of its own. What each operation means on natural numbers is one lemma
beside it; a proof about addresses goes through those lemmas and then through linear arithmetic.

## Main definitions

* `word`, `lowByte`, `highByte` — the two bytes of a word
* `nextInPage` — the next address within the same 256 bytes
* `samePage` — whether two addresses share their high byte
* `displaced` — an address moved by a signed byte

## Main results

* `word_lowByte_highByte`, `lowByte_word`, `highByte_word` — a word is its two bytes
* `displaced_inj` — no two displacements lead to the same address
-/

namespace Nmos6502

/-! ## The two bytes of a word -/

/-- The word with the given low and high byte. -/
@[inline] def word (lo hi : UInt8) : UInt16 := hi.toUInt16 * 256 + lo.toUInt16

/-- The low byte of a word. -/
@[inline] def lowByte (w : UInt16) : UInt8 := w.toUInt8

/-- The high byte of a word: the number of its page. -/
@[inline] def highByte (w : UInt16) : UInt8 := (w / 256).toUInt8

theorem toNat_word (lo hi : UInt8) : (word lo hi).toNat = hi.toNat * 256 + lo.toNat := by
  have := lo.toNat_lt
  have := hi.toNat_lt
  simp only [word, UInt16.toNat_add, UInt16.toNat_mul, UInt8.toNat_toUInt16, UInt16.toNat_ofNat]
  omega

theorem toNat_lowByte (w : UInt16) : (lowByte w).toNat = w.toNat % 256 := by
  simp [lowByte]

theorem toNat_highByte (w : UInt16) : (highByte w).toNat = w.toNat / 256 := by
  have := w.toNat_lt
  simp only [highByte, UInt16.toNat_toUInt8, UInt16.toNat_div, UInt16.reduceToNat]
  omega

@[simp] theorem word_lowByte_highByte (w : UInt16) : word (lowByte w) (highByte w) = w := by
  refine UInt16.toNat_inj.mp ?_
  rw [toNat_word, toNat_lowByte, toNat_highByte]
  omega

@[simp] theorem lowByte_word (lo hi : UInt8) : lowByte (word lo hi) = lo := by
  refine UInt8.toNat_inj.mp ?_
  have := lo.toNat_lt
  rw [toNat_lowByte, toNat_word]
  omega

@[simp] theorem highByte_word (lo hi : UInt8) : highByte (word lo hi) = hi := by
  refine UInt8.toNat_inj.mp ?_
  have := lo.toNat_lt
  rw [toNat_highByte, toNat_word]
  omega

/-! ## Moving an address -/

/-- The address after `a`, except that the last address of a page is followed by the first of the
same page. -/
def nextInPage (a : UInt16) : UInt16 := word (lowByte a + 1) (highByte a)

/-- Whether two addresses lie in the same 256-byte page. -/
def samePage (a b : UInt16) : Bool := highByte a == highByte b

/-- The address moved by a displacement byte, read as a number from -128 to 127. -/
def displaced (a : UInt16) (d : UInt8) : UInt16 :=
  if d < 0x80 then a + d.toUInt16 else a + d.toUInt16 - 256

/-- Counting on from an address wraps at the end of the address space. -/
theorem toNat_add_ofNat (a : UInt16) (k : Nat) :
    (a + UInt16.ofNat k).toNat = (a.toNat + k) % 65536 := by
  rw [UInt16.toNat_add, UInt16.toNat_ofNat']
  omega

theorem toNat_add_one (a : UInt16) : (a + 1).toNat = (a.toNat + 1) % 65536 := UInt16.toNat_add a 1

theorem toNat_nextInPage (a : UInt16) :
    (nextInPage a).toNat = a.toNat / 256 * 256 + (a.toNat % 256 + 1) % 256 := by
  simp only [nextInPage, toNat_word, toNat_highByte, UInt8.toNat_add, toNat_lowByte,
    UInt8.reduceToNat]

theorem displaced_inj {a : UInt16} {d e : UInt8} : displaced a d = displaced a e ↔ d = e := by
  refine ⟨fun h => UInt8.toNat_inj.mp ?_, fun h => h ▸ rfl⟩
  have ha := a.toNat_lt
  have hd := d.toNat_lt
  have he := e.toNat_lt
  have hn := congrArg UInt16.toNat h
  simp only [displaced, UInt8.lt_iff_toNat_lt, apply_ite UInt16.toNat, UInt16.toNat_sub,
    UInt16.toNat_add, UInt8.toNat_toUInt16, UInt16.reduceToNat, UInt8.reduceToNat] at hn
  split at hn <;> split at hn <;> omega

theorem samePage_iff {a b : UInt16} : samePage a b = true ↔ a.toNat / 256 = b.toNat / 256 := by
  rw [samePage, beq_iff_eq, ← UInt8.toNat_inj, toNat_highByte, toNat_highByte]

end Nmos6502
