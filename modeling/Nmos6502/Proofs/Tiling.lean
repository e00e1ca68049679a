import Nmos6502.Listing

/-!
# A listing tiles its block

A line stands for one, two or three bytes. This module says which, and shows that a listing neither
loses a byte nor invents one: put the bytes of its lines one after the other and the block is back.
Where each line stands is fixed as well. The first is at the start of the block, and every other one
begins where the line before it ends.

## What a line does not say

The bytes of a line can be read off only if the line is one that a block can give. The operand of a
line is a word whatever the mode, and a line could carry a word where its mode has a byte. No block
gives such a line, which is `Line.Fits`. The lines of a listing fit and lie end to end, and this is
all that later arguments need to know of `Line.disassemble`: they go by induction on `Line.Tiles`
and do not look at how the lines came about. In particular they do not tell the bytes of an
instruction that was cut off from bytes that are no instruction.

## Main definitions

* `Line.encode` — the bytes of a line
* `Line.Fits`, `Line.Tiles` — a line that a block can give, and lines end to end

## Main results

* `Line.flatMap_encode_disassemble`, `Line.tiles_disassemble` — what a listing is
* `Line.disassemble_inj` — so a listing determines its block
-/

namespace Nmos6502

namespace Line

/-! ## The bytes of a line -/

/-- An operand of `count` bytes, low byte first. -/
def operandBytes (count : Nat) (w : UInt16) : List UInt8 := [lowByte w, highByte w].take count

/-- The bytes that a line stands for. -/
def encode : Line → List UInt8
  | instruction _ o w => o.byte :: operandBytes o.mode.operandBytes w
  | byte _ b => [b]

/-- The operand has no more than `count` bytes: it can be read back from them. -/
def OperandFits (count : Nat) (w : UInt16) : Prop := operandIn? count (operandBytes count w) = some w

/-- The opcode of the line is documented, and its operand has no more bytes than the mode says. -/
def Fits : Line → Prop
  | instruction _ o w => o ∈ Opcode.documented ∧ OperandFits o.mode.operandBytes w
  | byte _ _ => True

/-- The lines lie end to end from an address on, and each of them fits. -/
def Tiles : UInt16 → List Line → Prop
  | _, [] => True
  | a, l :: rest => l.address = a ∧ l.Fits ∧ Tiles (a + UInt16.ofNat l.size) rest

theorem Tiles.fits {a : UInt16} {ls : List Line} (h : Tiles a ls) : ∀ l ∈ ls, l.Fits := by
  induction ls generalizing a with
  | nil => nofun
  | cons l rest ih =>
    obtain ⟨-, hfits, hrest⟩ := h
    intro k hk
    rcases List.mem_cons.mp hk with rfl | hk
    · exact hfits
    · exact ih hrest k hk

/-! ## The first line of a block -/

/-- An operand stands for the bytes that it was read from. -/
theorem of_operandIn? {count : Nat} {block : List UInt8} {w : UInt16}
    (h : operandIn? count block = some w) :
    operandBytes count w ++ block.drop count = block ∧ OperandFits count w := by
  rw [OperandFits]
  revert h
  fun_cases operandIn? count block with
  | case1 =>
    rintro ⟨⟩
    exact ⟨rfl, rfl⟩
  | case2 b rest =>
    rintro ⟨⟩
    have hlow : lowByte b.toUInt16 = b := by simp [lowByte]
    have hbytes : operandBytes 1 b.toUInt16 = [b] := by simp [operandBytes, hlow]
    rw [hbytes]
    exact ⟨rfl, rfl⟩
  | case3 lo hi rest =>
    rintro ⟨⟩
    have hbytes : operandBytes 2 (word lo hi) = [lo, hi] := by simp [operandBytes]
    rw [hbytes]
    exact ⟨rfl, rfl⟩
  | case4 => rintro ⟨⟩

/-- The instruction at the start of a block stands for the bytes it was read from. -/
theorem of_decode? {b : UInt8} {rest : List UInt8} {a : UInt16} {l : Line}
    (h : decode? (b :: rest) a = some l) :
    l.address = a ∧ l.Fits ∧ l.encode ++ rest.drop (l.size - 1) = b :: rest := by
  simp only [decode?, Option.bind_eq_bind, Option.bind_eq_some_iff, Option.pure_def,
    Option.some.injEq] at h
  obtain ⟨o, ho, w, hw, rfl⟩ := h
  obtain ⟨hbytes, hfits⟩ := of_operandIn? hw
  have hsize : (instruction a o w).size - 1 = o.mode.operandBytes :=
    Nat.add_sub_cancel_left ..
  refine ⟨rfl, ⟨Opcode.mem_documented_of_ofByte? ho, hfits⟩, ?_⟩
  rw [encode, hsize, List.cons_append, hbytes, Opcode.byte_of_ofByte? ho]

/-! ## All lines of a block -/

theorem flatMap_encode_bytes (block : List UInt8) (a : UInt16) :
    (bytes block a).flatMap encode = block := by
  induction block generalizing a with
  | nil => rfl
  | cons b rest ih => rw [bytes, List.flatMap_cons, ih, encode, List.singleton_append]

theorem tiles_bytes (block : List UInt8) (a : UInt16) : Tiles a (bytes block a) := by
  induction block generalizing a with
  | nil => trivial
  | cons b rest ih => exact ⟨rfl, trivial, ih (a + 1)⟩

/-- **Nothing is lost.** The lines of a block stand for the bytes of the block. -/
theorem flatMap_encode_disassemble (block : List UInt8) (a : UInt16) :
    (disassemble block a).flatMap encode = block := by
  fun_induction disassemble block a with
  | case1 a => rfl
  | case2 a b rest l hl ih =>
    obtain ⟨-, -, hbytes⟩ := of_decode? hl
    rw [List.flatMap_cons, ih, hbytes]
  | case3 a b rest hl hb => exact flatMap_encode_bytes (b :: rest) a
  | case4 a b rest hl hb ih => rw [List.flatMap_cons, ih, encode, List.singleton_append]

/-- **The lines of a block lie end to end.** -/
theorem tiles_disassemble (block : List UInt8) (a : UInt16) : Tiles a (disassemble block a) := by
  fun_induction disassemble block a with
  | case1 a => trivial
  | case2 a b rest l hl ih =>
    obtain ⟨haddress, hfits, -⟩ := of_decode? hl
    exact ⟨haddress, hfits, ih⟩
  | case3 a b rest hl hb => exact tiles_bytes (b :: rest) a
  | case4 a b rest hl hb ih => exact ⟨rfl, trivial, ih⟩

theorem disassemble_inj {a : UInt16} {block block' : List UInt8} :
    disassemble block a = disassemble block' a ↔ block = block' := by
  refine ⟨fun h => ?_, fun h => h ▸ rfl⟩
  rw [← flatMap_encode_disassemble block a, h, flatMap_encode_disassemble]

end Line

end Nmos6502
