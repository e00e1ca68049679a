import Nmos6502.Proofs.Tiling

/-!
# Where the instructions of a block begin

The same byte is an opcode in one place and part of an operand in another, and which of the two it
is depends on every byte before it. This module says where a block is read as opcodes without
mentioning a listing, and shows that a listing follows it: its lines begin at just those places.

## Two kinds of bytes that are no instruction

A line without an opcode can have two causes. Its byte may be no documented opcode. Or the block
ends within an instruction, and then the bytes of that instruction are lines of their own, whatever
they are. So a listing falls into two parts: lines that are *whole*, and a *stub* of at most two
bytes. Everything about the listing is read off from this decomposition, `Line.Decomposes`, and from
the lines of the first part being whole. Conversely whole lines that lie end to end are a listing,
`Line.disassemble_append`.

## Main definitions

* `Line.Boundary`, `Line.CutAt` — where a block is read, and where it ends within an instruction
* `Line.Whole`, `Line.Stub`, `Line.Decomposes` — the two parts of a listing
* `Line.offset` — where a line of a listing begins

## Main results

* `Line.disassemble_append` — whole lines end to end are a listing
* `Line.exists_decomposes`, `Line.Decomposes.boundary_iff` — what a listing is, and where its lines
  begin
* `Line.disassembly_tiles_block` — all of it, for every block
-/

namespace Nmos6502

namespace Line

/-! ## Where a block is read -/

/-- The offsets at which a block is read: its start, and what follows an instruction that the block
holds all of, or a byte that is no documented opcode, read at such an offset. -/
inductive Boundary (block : List UInt8) : Nat → Prop
  | start : Boundary block 0
  | instruction {i : Nat} {b : UInt8} {o : Opcode} (before : Boundary block i)
    (byte : block[i]? = some b) (documented : Opcode.ofByte? b = some o)
    (held : i + o.size ≤ block.length) : Boundary block (i + o.size)
  | byte {i : Nat} {b : UInt8} (before : Boundary block i) (byte : block[i]? = some b)
    (undocumented : Opcode.ofByte? b = none) : Boundary block (i + 1)

/-- The block ends within the instruction that begins at this offset. -/
structure CutAt (block : List UInt8) (i : Nat) : Prop where
  boundary : Boundary block i
  cut : ∃ b o, block[i]? = some b ∧ Opcode.ofByte? b = some o ∧ block.length < i + o.size

/-! ## Lines and offsets -/

/-- How many bytes some lines stand for. -/
def extent : List Line → Nat
  | [] => 0
  | l :: ls => l.size + extent ls

/-- How many bytes the lines before a line stand for. -/
def offset (ls : List Line) (i : Nat) : Nat := extent (ls.take i)

@[simp] theorem extent_nil : extent [] = 0 := rfl

@[simp] theorem extent_cons (l : Line) (ls : List Line) :
    extent (l :: ls) = l.size + extent ls := rfl

@[simp] theorem extent_append (ls ls' : List Line) :
    extent (ls ++ ls') = extent ls + extent ls' := by
  induction ls with
  | nil => simp
  | cons l rest ih => rw [List.cons_append, extent_cons, extent_cons, ih, Nat.add_assoc]

theorem offset_succ {ls : List Line} {i : Nat} {l : Line} (h : ls[i]? = some l) :
    offset ls (i + 1) = offset ls i + l.size := by
  rw [offset, offset, List.take_add_one, h]
  simp

theorem offset_length (ls : List Line) : offset ls ls.length = extent ls := by
  rw [offset, List.take_length]

theorem offset_le_extent (ls : List Line) (i : Nat) : offset ls i ≤ extent ls := by
  have hsplit : extent (ls.take i) + extent (ls.drop i) = extent ls := by
    rw [← extent_append, List.take_append_drop]
  rw [offset]
  omega

/-- Every line stands for some byte. -/
theorem length_le_extent (ls : List Line) : ls.length ≤ extent ls := by
  induction ls with
  | nil => exact Nat.le_refl 0
  | cons l rest ih =>
    have hpos := l.size_pos
    rw [List.length_cons, extent_cons]
    omega

theorem Tiles.address_first {a : UInt16} {ls : List Line} (h : Tiles a ls) {l : Line}
    (hl : ls[0]? = some l) : l.address = a := by
  cases ls with
  | nil => cases hl
  | cons k rest =>
    obtain rfl : k = l := Option.some.inj hl
    exact h.1

/-- A line begins where the one before it ends. -/
theorem Tiles.address_next {a : UInt16} {ls : List Line} (h : Tiles a ls) {i : Nat} {l l' : Line}
    (hl : ls[i]? = some l) (hl' : ls[i + 1]? = some l') :
    l'.address = l.address + UInt16.ofNat l.size := by
  induction ls generalizing a i with
  | nil => cases hl
  | cons k rest ih =>
    obtain ⟨haddress, -, hrest⟩ := h
    cases i with
    | zero =>
      obtain rfl : k = l := Option.some.inj hl
      rw [haddress]
      exact hrest.address_first hl'
    | succ i => exact ih hrest hl hl'

theorem length_operandBytes {count : Nat} (h : count ≤ 2) (w : UInt16) :
    (operandBytes count w).length = count := by
  simp [operandBytes, h]

theorem length_encode (l : Line) : l.encode.length = l.size := by
  cases l with
  | instruction a o w =>
    have h := o.mode.operandBytes_le_two
    simp only [encode, size, Opcode.size, List.length_cons, length_operandBytes h]
    omega
  | byte a b => rfl

/-- A line stands for its first byte and its operand. -/
theorem encode_eq (l : Line) : l.encode = l.value :: operandBytes (l.size - 1) l.operand := by
  cases l with
  | instruction a o w =>
    have hsize : (instruction a o w).size - 1 = o.mode.operandBytes :=
      Nat.add_sub_cancel_left ..
    rw [hsize]
    rfl
  | byte a b => rfl

theorem length_flatMap_encode (ls : List Line) : (ls.flatMap encode).length = extent ls := by
  induction ls with
  | nil => rfl
  | cons l rest ih => rw [List.flatMap_cons, List.length_append, ih, length_encode, extent_cons]

/-- The bytes from the offset of a line on are those of the lines from that line on. -/
theorem drop_offset (ls : List Line) (i : Nat) (rest : List UInt8) :
    (ls.flatMap encode ++ rest).drop (offset ls i) = (ls.drop i).flatMap encode ++ rest := by
  have hsplit : ls.flatMap encode = (ls.take i).flatMap encode ++ (ls.drop i).flatMap encode := by
    rw [← List.flatMap_append, List.take_append_drop]
  rw [hsplit, List.append_assoc]
  exact List.drop_left' (length_flatMap_encode _)

/-! ## Whole lines -/

/-- The line says all there is to say about its first byte: the documented opcode and an operand
that its mode allows, or that there is no such opcode. -/
structure Whole (l : Line) : Prop where
  fits : l.Fits
  opcode? : l.opcode? = Opcode.ofByte? l.value

theorem Whole.size_eq_size {l : Line} (h : l.Whole) {o : Opcode}
    (ho : Opcode.ofByte? l.value = some o) : l.size = o.size := by
  have hopcode := h.opcode?.trans ho
  cases l with
  | instruction a o' w =>
    obtain rfl : o' = o := Option.some.inj hopcode
    rfl
  | byte a b => cases hopcode

theorem Whole.size_eq_one {l : Line} (h : l.Whole) (ho : Opcode.ofByte? l.value = none) :
    l.size = 1 := by
  have hopcode := h.opcode?.trans ho
  cases l with
  | instruction a o w => cases hopcode
  | byte a b => rfl

/-- An operand is read back from its bytes, whatever follows them. -/
theorem operandIn?_append {count : Nat} {w : UInt16} (hcount : count ≤ 2) (h : OperandFits count w)
    (rest : List UInt8) : operandIn? count (operandBytes count w ++ rest) = some w := by
  rw [← h]
  rcases count with _ | _ | _ | count
  · rfl
  · rfl
  · rfl
  · omega

/-- A whole line is found again at the start of its bytes. -/
theorem disassemble_encode_append {l : Line} (h : l.Whole) (rest : List UInt8) :
    disassemble (l.encode ++ rest) l.address =
      l :: disassemble rest (l.address + UInt16.ofNat l.size) := by
  cases l with
  | instruction a o w =>
    have ho : Opcode.ofByte? o.byte = some o := h.opcode?.symm
    have hw := operandIn?_append o.mode.operandBytes_le_two h.fits.2 rest
    have hline : decode? ((instruction a o w).encode ++ rest) a = some (instruction a o w) := by
      simp [encode, decode?, ho, hw]
    have hlen := length_operandBytes o.mode.operandBytes_le_two w
    have hsize : (instruction a o w).size - 1 = o.mode.operandBytes :=
      Nat.add_sub_cancel_left ..
    rw [encode, List.cons_append] at hline ⊢
    rw [address, disassemble, hline]
    dsimp only
    rw [hsize, List.drop_left' hlen]
  | byte a b =>
    have hb : Opcode.ofByte? b = none := h.opcode?.symm
    have hline : decode? (b :: rest) a = none := by simp [decode?, hb]
    rw [encode, List.singleton_append, address, disassemble, hline]
    simp [hb, size]

/-- **Whole lines end to end are a listing.** -/
theorem disassemble_append {a : UInt16} {ls : List Line} (h : Tiles a ls) (hw : ∀ l ∈ ls, l.Whole)
    (rest : List UInt8) :
    disassemble (ls.flatMap encode ++ rest) a =
      ls ++ disassemble rest (a + UInt16.ofNat (extent ls)) := by
  induction ls generalizing a with
  | nil => simp
  | cons l ls ih =>
    obtain ⟨rfl, -, htiles⟩ := h
    obtain ⟨hl, hls⟩ := List.forall_mem_cons.mp hw
    rw [List.flatMap_cons, List.append_assoc, disassemble_encode_append hl, ih htiles hls,
      List.cons_append, extent_cons, UInt16.ofNat_add, UInt16.add_assoc]

/-! ## The two parts of a listing -/

/-- What can be left at the end of a block: nothing, or an opcode without all of its operand. -/
def Stub : List UInt8 → Prop
  | [] => True
  | b :: rest => ∃ o, Opcode.ofByte? b = some o ∧ rest.length < o.mode.operandBytes

/-- A listing is whole lines, and then the bytes of a stub. -/
structure Decomposes (block : List UInt8) (a : UInt16) (ls : List Line) (stub : List UInt8) : Prop
    where
  listing : disassemble block a = ls ++ bytes stub (a + UInt16.ofNat (extent ls))
  whole : ∀ l ∈ ls, l.Whole
  stub : Stub stub

theorem opcode?_of_mem_bytes {block : List UInt8} {a : UInt16} {l : Line} (h : l ∈ bytes block a) :
    l.opcode? = none := by
  induction block generalizing a with
  | nil => cases h
  | cons b rest ih =>
    rcases List.mem_cons.mp h with rfl | h
    · rfl
    · exact ih h

/-- The instruction at the start of a block is whole. -/
theorem whole_of_decode? {b : UInt8} {rest : List UInt8} {a : UInt16} {l : Line}
    (h : decode? (b :: rest) a = some l) : l.Whole := by
  refine ⟨(of_decode? h).2.1, ?_⟩
  simp only [decode?, Option.bind_eq_bind, Option.bind_eq_some_iff, Option.pure_def,
    Option.some.injEq] at h
  obtain ⟨o, ho, w, -, rfl⟩ := h
  rw [opcode?, value, Opcode.byte_of_ofByte? ho, ho]

theorem lt_of_operandIn?_eq_none {count : Nat} {block : List UInt8} (hcount : count ≤ 2)
    (h : operandIn? count block = none) : block.length < count := by
  rcases count with _ | _ | _ | count
  · cases h
  · cases block with
    | nil => simp
    | cons b rest => cases h
  · rcases block with _ | ⟨lo, _ | ⟨hi, rest⟩⟩
    · simp
    · simp
    · cases h
  · omega

/-- A documented opcode that no instruction is decoded from lacks some of its operand. -/
theorem stub_of_decode?_eq_none {b : UInt8} {rest : List UInt8} {a : UInt16}
    (h : decode? (b :: rest) a = none) (hb : (Opcode.ofByte? b).isSome) : Stub (b :: rest) := by
  obtain ⟨o, ho⟩ := Option.isSome_iff_exists.mp hb
  cases hw : operandIn? o.mode.operandBytes rest with
  | none => exact ⟨o, ho, lt_of_operandIn?_eq_none o.mode.operandBytes_le_two hw⟩
  | some w => simp [decode?, ho, hw] at h

/-- **What a listing is.** The induction follows the three exits of the reader: a decoded
instruction and an undocumented byte are one more whole line, and a cut instruction is the stub. -/
theorem exists_decomposes (block : List UInt8) (a : UInt16) :
    ∃ ls stub, Decomposes block a ls stub := by
  fun_induction disassemble block a with
  | case1 a => exact ⟨[], [], by rw [disassemble]; rfl, List.forall_mem_nil _, trivial⟩
  | case2 a b rest l hl ih =>
    obtain ⟨ls, stub, hlisting, hwhole, hstub⟩ := ih
    refine ⟨l :: ls, stub, ?_, List.forall_mem_cons.mpr ⟨whole_of_decode? hl, hwhole⟩, hstub⟩
    rw [disassemble, hl]
    dsimp only
    rw [hlisting, List.cons_append, extent_cons, UInt16.ofNat_add, UInt16.add_assoc]
  | case3 a b rest hl hb =>
    refine ⟨[], b :: rest, ?_, List.forall_mem_nil _, stub_of_decode?_eq_none hl hb⟩
    rw [disassemble, hl]
    simp [hb]
  | case4 a b rest hl hb ih =>
    obtain ⟨ls, stub, hlisting, hwhole, hstub⟩ := ih
    have hnone : Opcode.ofByte? b = none := by simpa using hb
    have hl' : (byte a b).Whole := ⟨trivial, hnone.symm⟩
    refine ⟨byte a b :: ls, stub, ?_, List.forall_mem_cons.mpr ⟨hl', hwhole⟩, hstub⟩
    rw [disassemble, hl]
    simp [hb, hlisting, size, UInt16.ofNat_add, UInt16.add_assoc]

namespace Decomposes

variable {block : List UInt8} {a : UInt16} {ls : List Line} {stub : List UInt8}

theorem block_eq (h : Decomposes block a ls stub) : block = ls.flatMap encode ++ stub := by
  rw [← flatMap_encode_disassemble block a, h.listing, List.flatMap_append, flatMap_encode_bytes]

theorem length_eq (h : Decomposes block a ls stub) : block.length = extent ls + stub.length := by
  rw [h.block_eq, List.length_append, length_flatMap_encode]

/-- At the offset of a whole line the block has its first byte. -/
theorem getElem?_offset (h : Decomposes block a ls stub) {i : Nat} {l : Line}
    (hl : ls[i]? = some l) : block[offset ls i]? = some l.value := by
  obtain ⟨hlt, rfl⟩ := List.getElem?_eq_some_iff.mp hl
  rw [← List.head?_drop, h.block_eq, drop_offset, List.drop_eq_getElem_cons hlt,
    List.flatMap_cons, encode_eq]
  rfl

theorem drop_extent (h : Decomposes block a ls stub) : block.drop (extent ls) = stub := by
  rw [h.block_eq, ← offset_length, drop_offset, List.drop_length]
  rfl

/-- What is read at the offset of a line: the first byte of a whole line, or behind all of them an
opcode that the block does not hold all of. -/
theorem read_offset (h : Decomposes block a ls stub) {i : Nat} (hi : i ≤ ls.length) {b : UInt8}
    (hb : block[offset ls i]? = some b) :
    (∃ l, ls[i]? = some l ∧ l.Whole ∧ l.value = b) ∨
      i = ls.length ∧ ∃ o, Opcode.ofByte? b = some o ∧
        block.length < offset ls i + o.size := by
  rcases Nat.lt_or_eq_of_le hi with hlt | rfl
  · left
    have hl : ls[i]? = some ls[i] := List.getElem?_eq_getElem hlt
    have hvalue : some ls[i].value = some b := (h.getElem?_offset hl).symm.trans hb
    exact ⟨ls[i], hl, h.whole _ (List.getElem_mem hlt), Option.some.inj hvalue⟩
  · right
    rw [offset_length] at hb ⊢
    rw [← List.head?_drop, h.drop_extent] at hb
    have hstub := h.stub
    cases stub with
    | nil => cases hb
    | cons c rest =>
      obtain rfl : c = b := Option.some.inj hb
      obtain ⟨o, ho, hlt⟩ := hstub
      refine ⟨rfl, o, ho, ?_⟩
      rw [h.length_eq, List.length_cons, Opcode.size]
      omega

theorem boundary_offset (h : Decomposes block a ls stub) {i : Nat} (hi : i ≤ ls.length) :
    Boundary block (offset ls i) := by
  induction i with
  | zero => exact .start
  | succ i ih =>
    have hl : ls[i]? = some ls[i] := List.getElem?_eq_getElem hi
    have hwhole := h.whole _ (List.getElem_mem hi)
    have hbefore : Boundary block (offset ls i) := ih (by omega)
    have hbyte := h.getElem?_offset hl
    rw [offset_succ hl]
    cases ho : Opcode.ofByte? ls[i].value with
    | none =>
      rw [hwhole.size_eq_one ho]
      exact .byte hbefore hbyte ho
    | some o =>
      have hheld : offset ls (i + 1) ≤ block.length := by
        rw [h.length_eq]
        exact Nat.le_trans (offset_le_extent ls (i + 1)) (Nat.le_add_right ..)
      rw [offset_succ hl, hwhole.size_eq_size ho] at hheld
      rw [hwhole.size_eq_size ho]
      exact .instruction hbefore hbyte ho hheld

/-- **Where the lines begin.** The boundaries of a block are the offsets of its whole lines, and
that of what follows them. -/
theorem boundary_iff (h : Decomposes block a ls stub) (k : Nat) :
    Boundary block k ↔ ∃ i ≤ ls.length, offset ls i = k := by
  constructor
  · intro hk
    induction hk with
    | start => exact ⟨0, Nat.zero_le _, rfl⟩
    | @instruction k b o _ hb ho hheld ih =>
      obtain ⟨i, hi, rfl⟩ := ih
      rcases h.read_offset hi hb with ⟨l, hl, hwhole, rfl⟩ | ⟨-, o', ho', hcut⟩
      · have hlt := (List.getElem?_eq_some_iff.mp hl).1
        exact ⟨i + 1, hlt, by rw [offset_succ hl, hwhole.size_eq_size ho]⟩
      · obtain rfl : o' = o := Option.some.inj (ho'.symm.trans ho)
        omega
    | @byte k b _ hb ho ih =>
      obtain ⟨i, hi, rfl⟩ := ih
      rcases h.read_offset hi hb with ⟨l, hl, hwhole, rfl⟩ | ⟨-, o', ho', -⟩
      · have hlt := (List.getElem?_eq_some_iff.mp hl).1
        exact ⟨i + 1, hlt, by rw [offset_succ hl, hwhole.size_eq_one ho]⟩
      · rw [ho] at ho'
        cases ho'
  · rintro ⟨i, hi, rfl⟩
    exact h.boundary_offset hi

/-- A block ends within an instruction if it has a stub, and then where the stub begins. -/
theorem cutAt_iff (h : Decomposes block a ls stub) (k : Nat) :
    CutAt block k ↔ k = extent ls ∧ stub ≠ [] := by
  constructor
  · rintro ⟨hk, b, o, hb, ho, hcut⟩
    obtain ⟨i, hi, rfl⟩ := (h.boundary_iff k).mp hk
    rcases h.read_offset hi hb with ⟨l, hl, hwhole, rfl⟩ | ⟨rfl, -⟩
    · -- a whole line ends within the block
      rw [← hwhole.size_eq_size ho, ← offset_succ hl, h.length_eq] at hcut
      have hle := offset_le_extent ls (i + 1)
      omega
    · rw [offset_length] at hb ⊢
      refine ⟨rfl, ?_⟩
      rintro rfl
      rw [← List.head?_drop, h.drop_extent] at hb
      cases hb
  · rintro ⟨rfl, hne⟩
    obtain ⟨b, rest, rfl⟩ := List.exists_cons_of_ne_nil hne
    obtain ⟨o, ho, hlt⟩ := h.stub
    refine ⟨offset_length ls ▸ h.boundary_offset (Nat.le_refl _), b, o, ?_, ho, ?_⟩
    · rw [← List.head?_drop, h.drop_extent]
      rfl
    · rw [h.length_eq, List.length_cons, Opcode.size]
      omega

/-- A stub has one byte or two. -/
theorem length_stub (h : Decomposes block a ls stub) (hne : stub ≠ []) :
    stub.length = 1 ∨ stub.length = 2 := by
  obtain ⟨b, rest, rfl⟩ := List.exists_cons_of_ne_nil hne
  obtain ⟨o, -, hlt⟩ := h.stub
  have hle := o.mode.operandBytes_le_two
  rw [List.length_cons]
  omega

/-- A line has the opcode of its byte, or none. -/
theorem opcode?_eq_none_or (h : Decomposes block a ls stub) {l : Line}
    (hl : l ∈ disassemble block a) : l.opcode? = none ∨ l.opcode? = Opcode.ofByte? l.value := by
  rw [h.listing] at hl
  rcases List.mem_append.mp hl with hl | hl
  · exact .inr (h.whole l hl).opcode?
  · exact .inl (opcode?_of_mem_bytes hl)

/-- **Which lines have no opcode.** -/
theorem opcode?_eq_none_iff (h : Decomposes block a ls stub) {i : Nat} {l : Line}
    (hl : (disassemble block a)[i]? = some l) :
    l.opcode? = none ↔
      Boundary block (offset (disassemble block a) i) ∧ Opcode.ofByte? l.value = none ∨
        ∃ k ≤ offset (disassemble block a) i, CutAt block k := by
  rw [h.listing] at hl ⊢
  rcases Nat.lt_or_ge i ls.length with hi | hi
  · rw [List.getElem?_append_left hi] at hl
    have hoffset : offset (ls ++ bytes stub (a + UInt16.ofNat (extent ls))) i = offset ls i := by
      rw [offset, offset, List.take_append_of_le_length (by omega)]
    have hwhole := h.whole l (List.mem_of_getElem? hl)
    rw [hoffset, hwhole.opcode?]
    constructor
    · intro ho
      exact .inl ⟨h.boundary_offset (by omega), ho⟩
    · rintro (⟨-, ho⟩ | ⟨k, hk, hcut⟩)
      · exact ho
      · -- no stub begins before a whole line
        obtain ⟨rfl, -⟩ := (h.cutAt_iff k).mp hcut
        have hle := offset_le_extent ls (i + 1)
        rw [offset_succ hl] at hle
        have hpos := l.size_pos
        omega
  · rw [List.getElem?_append_right hi] at hl
    have hmem := List.mem_of_getElem? hl
    have hne : stub ≠ [] := by
      rintro rfl
      cases hmem
    have hoffset : extent ls ≤ offset (ls ++ bytes stub (a + UInt16.ofNat (extent ls))) i := by
      rw [offset, List.take_append, extent_append, List.take_of_length_le hi]
      exact Nat.le_add_right ..
    have hnone : l.opcode? = none := opcode?_of_mem_bytes hmem
    constructor
    · intro _
      exact .inr ⟨extent ls, hoffset, (h.cutAt_iff _).mpr ⟨rfl, hne⟩⟩
    · intro _
      exact hnone

end Decomposes

/-! ## All of it -/

/-- **A listing tiles its block.** For every block and every address of its first byte: the lines
stand for the bytes of the block, each one for its first byte and for its operand in as many bytes
as its size leaves, and there are no more lines than bytes. The first line has the address of the
block, and every other one that of the line before it and its size. A line has the opcode of its
byte or none. It has none exactly if its byte is read as an opcode and is not a documented one, or
if it lies behind a place at which the block ends within an instruction. Behind such a place there
are one or two bytes, and each of them is a line. -/
theorem disassembly_tiles_block (block : List UInt8) (a : UInt16) :
    (disassemble block a).flatMap (fun l =>
      l.value :: [lowByte l.operand, highByte l.operand].take (l.size - 1)) = block ∧
    (disassemble block a).length ≤ block.length ∧
    (∀ l, (disassemble block a)[0]? = some l → l.address = a) ∧
    (∀ i l l', (disassemble block a)[i]? = some l → (disassemble block a)[i + 1]? = some l' →
      l'.address = l.address + UInt16.ofNat l.size) ∧
    (∀ i l, (disassemble block a)[i]? = some l →
      (l.opcode? = none ∨ l.opcode? = Opcode.ofByte? l.value) ∧
      (l.opcode? = none ↔
        Boundary block (offset (disassemble block a) i) ∧ Opcode.ofByte? l.value = none ∨
          ∃ k ≤ offset (disassemble block a) i, CutAt block k)) ∧
    (∀ k, CutAt block k → (block.length - k = 1 ∨ block.length - k = 2) ∧
      ∃ i, offset (disassemble block a) i = k ∧
        (disassemble block a).drop i = bytes (block.drop k) (a + UInt16.ofNat k)) := by
  obtain ⟨ls, stub, h⟩ := exists_decomposes block a
  have htiles := tiles_disassemble block a
  refine ⟨?_, ?_, fun l hl => htiles.address_first hl, fun i l l' hl hl' => ?_, fun i l hl => ?_,
    fun k hk => ?_⟩
  · have hbytes : (fun l : Line =>
        l.value :: [lowByte l.operand, highByte l.operand].take (l.size - 1)) = encode :=
      funext fun l => (encode_eq l).symm
    rw [hbytes, flatMap_encode_disassemble]
  · have hextent : extent (disassemble block a) = block.length := by
      rw [← length_flatMap_encode, flatMap_encode_disassemble]
    exact hextent ▸ length_le_extent _
  · exact htiles.address_next hl hl'
  · exact ⟨h.opcode?_eq_none_or (List.mem_of_getElem? hl), h.opcode?_eq_none_iff hl⟩
  · obtain ⟨rfl, hne⟩ := (h.cutAt_iff k).mp hk
    have hrest : block.length - extent ls = stub.length := by
      rw [h.length_eq]
      omega
    refine ⟨hrest ▸ h.length_stub hne, ls.length, ?_, ?_⟩
    · rw [h.listing, offset, List.take_left]
    · rw [h.listing, List.drop_left, h.drop_extent]

end Line

end Nmos6502
