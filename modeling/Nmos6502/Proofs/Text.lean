import Mathlib.Data.List.Nodup
import Nmos6502.Proofs.Tiling

/-!
# What a printed line tells

A line is printed without its bytes: a mnemonic and an operand, or a byte that stands for itself.
This module shows that the text still tells all of it, at a known address. Two lines of listings
that stand at the same address and read the same are the same line. Hence two blocks whose listings
read the same from the same address on are the same block.

## Why the text is enough

The mnemonic does not determine the opcode, since an instruction may have eight of them, and the
operand as a number does not either, since `$05` and `$0005` are different. What does is the
*outline* of the text: the mnemonic, and behind it the text with every hexadecimal digit blanked
out. It shows how many digits the operand has and what stands around them, and it is the same for
all operands. Only two modes have the same outline, the displacement of a branch and a full address,
and no instruction has both. So the outlines of the documented opcodes are pairwise different, which
is a finite check.

Once the opcode is known the digits determine the operand. For a branch they are those of an
address, and this is why the line's own address has to be known.

## Main definitions

* `Hex.blank`, `Mode.outline`, `Opcode.outline` — a text without its digits

## Main results

* `Opcode.outline_inj` — no two documented opcodes look alike
* `Line.operandText_inj` — no two operands of a mode look alike
* `Line.eq_of_text`, `Line.Tiles.eq_of_map_text` — lines and listings that read the same
* `Line.printed_listing_lossless` — a listing can be read back
-/

namespace Nmos6502

/-! ## Blanking the digits -/

namespace Hex

/-- Any hexadecimal digit becomes the digit zero. -/
def blank (c : Char) : Char := if c ∈ (List.range 16).map digit then '0' else c

theorem digit_mem (n : Nat) : digit n ∈ (List.range 16).map digit := by
  have hlt : n % 16 < 16 := Nat.mod_lt n (by decide)
  exact List.mem_map.mpr ⟨n % 16, List.mem_range.mpr hlt, digit_inj.mpr (Nat.mod_mod n 16)⟩

theorem map_blank_digits (width n : Nat) :
    (digits width n).map blank = List.replicate width '0' := by
  induction width generalizing n with
  | zero => rfl
  | succ width ih =>
    rw [digits, List.map_append, ih, List.map_singleton, blank, if_pos (digit_mem n),
      List.replicate_succ']

@[simp] theorem map_blank_byte (b : UInt8) : (byte b).toList.map blank = ['0', '0'] := by
  rw [byte, String.toList_ofList, map_blank_digits]
  rfl

@[simp] theorem map_blank_word (w : UInt16) : (word w).toList.map blank = ['0', '0', '0', '0'] := by
  rw [word, String.toList_ofList, map_blank_digits]
  rfl

end Hex

/-! ## Outlines -/

/-- The text of an operand with its digits blanked out. The name of the accumulator is a digit. -/
def Mode.outline : Mode → List Char
  | .implicit => []
  | .accumulator => [' ', '0']
  | .relative | .memory .absolute => [' ', '$', '0', '0', '0', '0']
  | .memory .immediate => [' ', '#', '$', '0', '0']
  | .memory .zeroPage => [' ', '$', '0', '0']
  | .memory .zeroPageX => [' ', '$', '0', '0', ',', 'X']
  | .memory .zeroPageY => [' ', '$', '0', '0', ',', 'Y']
  | .memory .absoluteX => [' ', '$', '0', '0', '0', '0', ',', 'X']
  | .memory .absoluteY => [' ', '$', '0', '0', '0', '0', ',', 'Y']
  | .memory .indirect => [' ', '(', '$', '0', '0', '0', '0', ')']
  | .memory .indirectX => [' ', '(', '$', '0', '0', ',', 'X', ')']
  | .memory .indirectY => [' ', '(', '$', '0', '0', ')', ',', 'Y']

theorem Line.map_blank_operandText (m : Mode) (a w : UInt16) :
    (operandText m a w).toList.map Hex.blank = m.outline := by
  cases m with
  | implicit => rfl
  | accumulator =>
    simp only [operandText, Mode.outline]
    decide
  | relative =>
    simp only [operandText, Mode.outline, String.toList_append, List.map_append,
      Hex.map_blank_word]
    decide
  | memory p =>
    cases p <;>
      simp only [operandText, Mode.outline, String.toList_append, List.map_append,
        Hex.map_blank_byte, Hex.map_blank_word] <;>
      decide

namespace Opcode

/-- The mnemonic of an opcode, and the outline of its operand. -/
def outline (o : Opcode) : List Char := o.mnemonic.name.toList ++ o.mode.outline

/-- Characters below 128 as the digits of one number, which compares faster than they do. -/
def packed (cs : List Char) : Nat := cs.foldl (fun n c => n * 128 + c.toNat) 0

theorem nodup_map_outline : (documented.map outline).Nodup := by
  have distinct : (documented.map fun o => packed o.outline).Nodup := by decide +kernel
  refine List.Nodup.of_map packed ?_
  rwa [List.map_map]

/-- **No two documented opcodes look alike.** -/
theorem outline_inj {o o' : Opcode} (h : o ∈ documented) (h' : o' ∈ documented) :
    o.outline = o'.outline ↔ o = o' :=
  ⟨List.inj_on_of_nodup_map nodup_map_outline h h', fun he => he ▸ rfl⟩

end Opcode

namespace Line

/-- The outline of an opcode can be seen in the text of any line that has it: the first three
characters are its mnemonic, and the rest has its digits blanked out. -/
theorem outline_of_text (a : UInt16) (o : Opcode) (w : UInt16) :
    (instruction a o w).text.toList.take 3 ++
      ((instruction a o w).text.toList.drop 3).map Hex.blank = o.outline := by
  have hlength := o.mnemonic.length_name
  rw [text, String.toList_append, List.take_left' hlength, List.drop_left' hlength,
    map_blank_operandText, Opcode.outline]

/-! ## Lines that read the same -/

/-- An operand of one byte is known by its low byte. -/
theorem OperandFits.lowByte_inj {v w : UInt16} (hv : OperandFits 1 v) (hw : OperandFits 1 w) :
    lowByte v = lowByte w ↔ v = w := by
  refine ⟨fun h => ?_, fun h => h ▸ rfl⟩
  have hbytes : operandBytes 1 v = operandBytes 1 w := congrArg (fun b => [b]) h
  rw [OperandFits, hbytes] at hv
  exact Option.some_inj.mp (hv.symm.trans hw)

/-- **No two operands of a mode look alike.** -/
theorem operandText_inj {m : Mode} {a v w : UInt16} (hv : OperandFits m.operandBytes v)
    (hw : OperandFits m.operandBytes w) : operandText m a v = operandText m a w ↔ v = w := by
  refine ⟨fun h => ?_, fun h => h ▸ rfl⟩
  cases m with
  | implicit | accumulator =>
    have hzero : some v = some w := hv.symm.trans hw
    exact Option.some_inj.mp hzero
  | relative =>
    -- the digits are those of the target, and the displacement is found again from it
    have htarget : branchTarget a v = branchTarget a w := by
      simpa only [operandText, String.append_right_inj, Hex.word_inj] using h
    exact (OperandFits.lowByte_inj hv hw).mp (displaced_inj.mp htarget)
  | memory p =>
    cases p with
    | absolute | absoluteX | absoluteY | indirect =>
      simpa only [operandText, String.append_right_inj, String.append_left_inj,
        Hex.word_inj] using h
    | immediate | zeroPage | zeroPageX | zeroPageY | indirectX | indirectY =>
      refine (OperandFits.lowByte_inj hv hw).mp ?_
      simpa only [operandText, String.append_right_inj, String.append_left_inj,
        Hex.byte_inj] using h

/-- No instruction reads like a byte. -/
theorem text_instruction_ne_text_byte {o : Opcode} (h : o ∈ Opcode.documented) (a a' w : UInt16)
    (b : UInt8) : (instruction a o w).text ≠ (byte a' b).text := by
  have letters : ∀ o ∈ Opcode.documented, o.mnemonic.name.toList ≠ ['.', 'b', 'y'] := by
    decide +kernel
  have hbyte : (byte a' b).text.toList.take 3 = ['.', 'b', 'y'] := by
    rw [text, String.toList_append]
    rfl
  intro ht
  have htake : (instruction a o w).text.toList.take 3 = o.mnemonic.name.toList := by
    rw [text, String.toList_append, List.take_left' o.mnemonic.length_name]
  exact letters o h (by rw [← htake, ht, hbyte])

/-- **A line is known by its address and its text.** -/
theorem eq_of_text {l l' : Line} (h : l.Fits) (h' : l'.Fits) (ha : l.address = l'.address)
    (ht : l.text = l'.text) : l = l' := by
  cases l with
  | instruction a o w =>
    cases l' with
    | instruction a' o' w' =>
      obtain rfl : a = a' := ha
      obtain rfl : o = o' := by
        rw [← Opcode.outline_inj h.1 h'.1, ← outline_of_text a o w, ht, outline_of_text]
      have hw : operandText o.mode a w = operandText o.mode a w' :=
        String.append_right_inj _ |>.mp ht
      rw [(operandText_inj h.2 h'.2).mp hw]
    | byte a' b' => exact absurd ht (text_instruction_ne_text_byte h.1 a a' w b')
  | byte a b =>
    cases l' with
    | instruction a' o' w' => exact absurd ht.symm (text_instruction_ne_text_byte h'.1 a' a w' b)
    | byte a' b' =>
      obtain rfl : a = a' := ha
      have hb : Hex.byte b = Hex.byte b' := String.append_right_inj _ |>.mp ht
      rw [Hex.byte_inj.mp hb]

/-- Listings from the same address on that read the same are the same. -/
theorem Tiles.eq_of_map_text {a : UInt16} {ls ls' : List Line} (h : Tiles a ls)
    (h' : Tiles a ls') (ht : ls.map text = ls'.map text) : ls = ls' := by
  induction ls generalizing a ls' with
  | nil => exact (List.map_eq_nil_iff.mp ht.symm).symm
  | cons l rest ih =>
    obtain ⟨l', rest', rfl, hl, hrest⟩ := List.map_eq_cons_iff.mp ht.symm
    obtain ⟨haddress, hfits, htiles⟩ := h
    obtain ⟨haddress', hfits', htiles'⟩ := h'
    obtain rfl : l = l' := eq_of_text hfits hfits' (haddress.trans haddress'.symm) hl.symm
    rw [ih htiles htiles' hrest.symm]

/-- **A printed listing loses nothing.** Two blocks whose listings read the same from the same
address on are equal. And any two lines of listings are equal as soon as they have the same address
and the same text, so the text of a line determines its opcode and its operand. -/
theorem printed_listing_lossless (a a' : UInt16) (block block' : List UInt8) :
    ((disassemble block a).map text = (disassemble block' a).map text ↔ block = block') ∧
      ∀ l ∈ disassemble block a, ∀ l' ∈ disassemble block' a',
        l = l' ↔ l.address = l'.address ∧ l.text = l'.text := by
  refine ⟨⟨fun h => ?_, fun h => h ▸ rfl⟩, fun l hl l' hl' => ⟨?_, ?_⟩⟩
  · exact disassemble_inj.mp
      ((tiles_disassemble block a).eq_of_map_text (tiles_disassemble block' a) h)
  · rintro rfl
    exact ⟨rfl, rfl⟩
  · rintro ⟨haddress, htext⟩
    have hfits : l.Fits := (tiles_disassemble block a).fits l hl
    have hfits' : l'.Fits := (tiles_disassemble block' a').fits l' hl'
    exact eq_of_text hfits hfits' haddress htext

end Line

end Nmos6502
