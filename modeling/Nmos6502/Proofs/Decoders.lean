import Nmos6502.Host
import Nmos6502.Proofs.Boundaries

/-!
# Two ways to read a line

A line can be read from the bus, where a byte follows every byte and addresses wrap, or from a block
of bytes, which may end too early. This module shows that the two readers agree: list any number of
lines from the bus, take the bytes that they stand for, and the block of these bytes has the same
listing. Addresses, opcodes and operands are those of the bus, and nothing is cut off at the end.

## Where the wrapping goes

A line from the bus is whole, and its bytes are the ones that the bus has at consecutive addresses.
That is said of one line at an arbitrary address, so it does not matter whether the address space
ends within the line, or how often a long listing goes around it. The lines of a listing then lie
end to end by their addresses modulo `2 ^ 16`, and whole lines end to end are a listing of a block.

## Main results

* `Line.whole_decodeAt`, `Line.encode_decodeAt` — a line from the bus
* `Line.tiles_list`, `Line.flatMap_bytesOn_list` — lines from the bus
* `Line.decoders_agree` — the two readers
* `Host.map_disassemble_bytes` — the rows that a host shows can be read back
-/

universe u

namespace Nmos6502

namespace Line

variable {β : Type u} [Bus β]

/-! ## A line from the bus -/

/-- An operand from the bus stands for the bytes there. -/
theorem operandBytes_operandAt (bus : β) (a : UInt16) {count : Nat} (h : count ≤ 2) :
    operandBytes count (operandAt bus a count) = Bus.dump bus a count := by
  rcases count with _ | _ | _ | count
  · rfl
  · simp [operandBytes, operandAt, Bus.dump, lowByte]
  · simp [operandBytes, operandAt, Bus.dump, Bus.readWord]
  · omega

theorem operandFits_operandAt (bus : β) (a : UInt16) {count : Nat} (h : count ≤ 2) :
    OperandFits count (operandAt bus a count) := by
  rw [OperandFits, operandBytes_operandAt bus a h]
  rcases count with _ | _ | _ | count
  · rfl
  · rfl
  · rfl
  · omega

@[simp] theorem address_decodeAt (bus : β) (a : UInt16) : (decodeAt bus a).address = a := by
  rw [decodeAt]
  split <;> rfl

theorem whole_decodeAt (bus : β) (a : UInt16) : (decodeAt bus a).Whole := by
  cases ho : Opcode.ofByte? (Bus.read bus a) with
  | some o =>
    have hfits := operandFits_operandAt bus (a + 1) o.mode.operandBytes_le_two
    rw [decodeAt, ho]
    refine ⟨⟨Opcode.mem_documented_of_ofByte? ho, hfits⟩, ?_⟩
    rw [opcode?, value, Opcode.byte_of_ofByte? ho, ho]
  | none =>
    rw [decodeAt, ho]
    exact ⟨trivial, ho.symm⟩

/-- A line from the bus stands for the bytes there. -/
theorem encode_decodeAt (bus : β) (a : UInt16) :
    (decodeAt bus a).encode = bytesOn bus (decodeAt bus a) := by
  rw [bytesOn, address_decodeAt]
  cases ho : Opcode.ofByte? (Bus.read bus a) with
  | some o =>
    have hoperand := operandBytes_operandAt bus (a + 1) o.mode.operandBytes_le_two
    rw [decodeAt, ho]
    simp only [encode, size, Opcode.size, Nat.add_comm 1, Bus.dump, hoperand,
      Opcode.byte_of_ofByte? ho]
  | none =>
    rw [decodeAt, ho]
    rfl

/-! ## Lines from the bus -/

@[simp] theorem length_list (bus : β) (a : UInt16) (count : Nat) :
    (list bus a count).length = count := by
  induction count generalizing a with
  | zero => rfl
  | succ count ih => simp [list, ih]

/-- A line of a listing was read at some address. -/
theorem exists_of_mem_list {bus : β} {a : UInt16} {count : Nat} {l : Line}
    (h : l ∈ list bus a count) : ∃ i, l = decodeAt bus i := by
  induction count generalizing a with
  | zero => cases h
  | succ count ih =>
    rcases List.mem_cons.mp h with rfl | h
    · exact ⟨a, rfl⟩
    · exact ih h

theorem whole_of_mem_list {bus : β} {a : UInt16} {count : Nat} {l : Line}
    (h : l ∈ list bus a count) : l.Whole := by
  obtain ⟨i, rfl⟩ := exists_of_mem_list h
  exact whole_decodeAt bus i

theorem tiles_list (bus : β) (a : UInt16) (count : Nat) : Tiles a (list bus a count) := by
  induction count generalizing a with
  | zero => trivial
  | succ count ih => exact ⟨address_decodeAt bus a, (whole_decodeAt bus a).fits, ih _⟩

theorem flatMap_bytesOn_list (bus : β) (a : UInt16) (count : Nat) :
    (list bus a count).flatMap (bytesOn bus) = (list bus a count).flatMap encode := by
  induction count generalizing a with
  | zero => rfl
  | succ count ih => rw [list, List.flatMap_cons, List.flatMap_cons, ih, encode_decodeAt]

/-- The listing of the bytes of a listing, which consists of whole lines only. -/
theorem decomposes_list (bus : β) (a : UInt16) (count : Nat) :
    Decomposes ((list bus a count).flatMap (bytesOn bus)) a (list bus a count) [] where
  listing := by
    have h := disassemble_append (tiles_list bus a count) (fun _ => whole_of_mem_list) []
    rw [List.append_nil, disassemble] at h
    rw [flatMap_bytesOn_list, h, bytes]
  whole _ := whole_of_mem_list
  stub := trivial

/-- **The two readers agree.** For every bus, every address and every number of lines: the block of
the bytes that the lines from the bus stand for has the same lines, and it does not end within an
instruction. -/
theorem decoders_agree (bus : β) (a : UInt16) (count : Nat) :
    disassemble ((list bus a count).flatMap fun l => Bus.dump bus l.address l.size) a =
        list bus a count ∧
      (list bus a count).length = count ∧
        ∀ k, ¬ CutAt ((list bus a count).flatMap fun l => Bus.dump bus l.address l.size) k := by
  have h := decomposes_list bus a count
  have hlisting := h.listing
  rw [bytes, List.append_nil] at hlisting
  refine ⟨hlisting, length_list bus a count, fun k hk => ?_⟩
  exact ((h.cutAt_iff k).mp hk).2 rfl

end Line

/-! ## What a host shows -/

/-- The bytes of the rows that a host shows have a listing with the addresses and texts of the
rows. -/
theorem Host.map_disassemble_bytes (h : Host) (a : UInt16) (count : UInt32) :
    (Line.disassemble ((h.list a count).flatMap ListedLine.bytes) a).map
        (fun l => (l.address, l.text)) =
      (h.list a count).map fun row => (row.address, row.text) := by
  have hbytes : (h.list a count).flatMap ListedLine.bytes =
      (Line.list h.cpu.bus a count.toNat).flatMap (Line.bytesOn h.cpu.bus) := List.flatMap_map ..
  rw [hbytes, (Line.decomposes_list h.cpu.bus a count.toNat).listing, Line.bytes, List.append_nil,
    Host.list, List.map_map]
  rfl

end Nmos6502
