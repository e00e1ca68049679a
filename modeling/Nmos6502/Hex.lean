/-!
# Hexadecimal text

Addresses and bytes are written in upper-case hexadecimal: bytes with two digits, words with four,
and sizes with as many as they need. `digits` is the one routine behind all three. It takes the
width, so a number too large for it loses its high digits and nothing else changes.

## Main definitions

* `Hex.digits` — the last `width` hexadecimal digits of a number, most significant first
* `Hex.byte`, `Hex.word` — fixed width, for bytes and addresses
* `Hex.plain` — no leading zeros, for sizes

## Main results

* `Hex.length_digits` — the width is the length
* `Hex.digits_succ_inj` — the digits of a number determine it, one after the other
* `Hex.byte_inj`, `Hex.word_inj` — so a byte or a word is known by its text
-/

namespace Nmos6502

namespace Hex

/-- The digit for a number below 16; larger numbers count modulo 16. -/
def digit (n : Nat) : Char :=
  match n % 16 with
  | 0 => '0' | 1 => '1' | 2 => '2' | 3 => '3' | 4 => '4' | 5 => '5' | 6 => '6' | 7 => '7'
  | 8 => '8' | 9 => '9' | 10 => 'A' | 11 => 'B' | 12 => 'C' | 13 => 'D' | 14 => 'E' | _ => 'F'

/-- The last `width` hexadecimal digits of `n`, most significant first. -/
def digits : (width : Nat) → (n : Nat) → List Char
  | 0, _ => []
  | width + 1, n => digits width (n / 16) ++ [digit n]

@[simp] theorem length_digits (width n : Nat) : (digits width n).length = width := by
  induction width generalizing n with
  | zero => rfl
  | succ width ih => simp [digits, ih]

theorem digit_inj {n m : Nat} : digit n = digit m ↔ n % 16 = m % 16 := by
  have sixteen : ∀ i j : Fin 16, digit i = digit j → i = j := by decide
  have reduced : ∀ k, digit (k % 16) = digit k := fun k => by rw [digit, digit, Nat.mod_mod]
  have small : ∀ k, k % 16 < 16 := fun k => Nat.mod_lt k (by decide)
  constructor
  · intro h
    rw [← reduced n, ← reduced m] at h
    exact Fin.val_congr (sixteen ⟨n % 16, small n⟩ ⟨m % 16, small m⟩ h)
  · intro h
    rw [← reduced n, h, reduced]

/-- Equal digits are equal digits of the quotients by sixteen, and equal remainders. -/
theorem digits_succ_inj {width n m : Nat} : digits (width + 1) n = digits (width + 1) m ↔
    digits width (n / 16) = digits width (m / 16) ∧ n % 16 = m % 16 := by
  rw [digits, digits, ← digit_inj]
  constructor
  · intro h
    obtain ⟨hhigh, hlow⟩ := List.append_inj' h rfl
    exact ⟨hhigh, List.singleton_inj.mp hlow⟩
  · rintro ⟨hhigh, hlow⟩
    rw [hhigh, hlow]

/-- A byte as two digits. -/
def byte (b : UInt8) : String := String.ofList (digits 2 b.toNat)

/-- A word as four digits. -/
def word (w : UInt16) : String := String.ofList (digits 4 w.toNat)

@[simp] theorem byte_inj {a b : UInt8} : byte a = byte b ↔ a = b := by
  have ha := a.toNat_lt
  have hb := b.toNat_lt
  rw [byte, byte, String.ofList_inj, digits_succ_inj, digits_succ_inj, ← UInt8.toNat_inj]
  simp only [digits, true_and]
  omega

@[simp] theorem word_inj {a b : UInt16} : word a = word b ↔ a = b := by
  have ha := a.toNat_lt
  have hb := b.toNat_lt
  rw [word, word, String.ofList_inj, digits_succ_inj, digits_succ_inj, digits_succ_inj,
    digits_succ_inj, ← UInt16.toNat_inj]
  simp only [digits, true_and]
  omega

/-- A number with as many digits as it needs, and at least one. -/
def plain (n : Nat) : String := String.ofList (digits (n.log2 / 4 + 1) n)

end Hex

end Nmos6502
