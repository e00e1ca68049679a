import Nmos6502.Proofs.Hidden
import Nmos6502.Proofs.Loading
import Nmos6502.Proofs.Service

/-!
# The last byte stored

Bytes get into a memory in three ways: one at a time, as a word, and as a block that is put in at
once. The three have bounds of their own. A write is dropped where nothing is installed, a word
wraps at the end of the address space and may be kept by half, and a block is cut at the end of the
address space but goes in whatever is installed. This module shows that a reader need not know: an
installed address reads as the byte that was stored there last, in whichever way, and every other
address as zero.

## One kind of store

What a store puts in is a list of cells, bytes with their addresses. On a memory the three ways
differ, but what can be read of it is its `Window`, and that follows each of them as single writes,
one for each cell. So the law is proved for single writes on a window, by induction on the cells,
and any sequence of stores is one list of them.

## Main definitions

* `Store`, `Store.cells` — the three ways, and what is put in
* `Memory.after` — a memory after some stores
* `lastIn?`, `lastStored` — the last byte for an address

## Main results

* `Bus.writeEach_eq_writes` — a block as its cells
* `Window.read_writes` — the law for single writes
* `Memory.read_after` — the law for stores
* `Memory.keeps_last_stored` — all of it, for a memory of any size
-/

universe u

namespace Nmos6502

/-! ## Stores and their cells -/

/-- A way to put bytes into a memory. -/
inductive Store
  | write (a : UInt16) (b : UInt8)
  | writeWord (a w : UInt16)
  | load (offset : UInt16) (image : List UInt8)

namespace Bus

/-- The bytes of a block, each with its address. -/
def blockCells (offset : UInt16) (block : List UInt8) : List (UInt16 × UInt8) :=
  (List.range block.length).map fun i => (offset + UInt16.ofNat i, block.getD i 0)

end Bus

/-- What a store puts in, the first byte first. -/
def Store.cells : Store → List (UInt16 × UInt8)
  | write a b => [(a, b)]
  | writeWord a w => [(a, lowByte w), (a + 1, highByte w)]
  | load offset image => Bus.blockCells offset (image.take (Bus.copied image offset))

/-- The byte that is last for an address, if there is one. -/
def lastIn? (cells : List (UInt16 × UInt8)) (a : UInt16) : Option UInt8 := cells.reverse.lookup a

/-- The byte that some stores left at an address, zero if there is none. -/
def lastStored (stores : List Store) (a : UInt16) : UInt8 :=
  (lastIn? (stores.flatMap Store.cells) a).getD 0

namespace Memory

def store (m : Memory) : Store → Memory
  | .write a b => Bus.write m a b
  | .writeWord a w => Bus.writeWord m a w
  | .load offset image => (Bus.load m offset image).1

/-- The memory after some stores, one after the other. -/
def after (m : Memory) (stores : List Store) : Memory := stores.foldl store m

end Memory

/-! ## The last of some cells -/

theorem lastIn?_append (first second : List (UInt16 × UInt8)) (a : UInt16) :
    lastIn? (first ++ second) a = (lastIn? second a).or (lastIn? first a) := by
  rw [lastIn?, List.reverse_append, List.lookup_append]
  rfl

theorem lastIn?_singleton (i a : UInt16) (b : UInt8) :
    lastIn? [(i, b)] a = if a = i then some b else none := by
  have hlookup : lastIn? [(i, b)] a = match a == i with | true => some b | false => none :=
    List.lookup_cons
  rw [hlookup]
  by_cases h : a = i
  · rw [if_pos h, beq_iff_eq.mpr h]
  · rw [if_neg h, beq_eq_false_iff_ne.mpr h]

/-! ## A block as its cells -/

namespace Bus

theorem blockCells_cons (offset : UInt16) (b : UInt8) (rest : List UInt8) :
    blockCells offset (b :: rest) = (offset, b) :: blockCells (offset + 1) rest := by
  rw [blockCells, List.length_cons, List.range_succ_eq_map, List.map_cons, List.map_map]
  refine congrArg₂ List.cons ?_ (List.map_congr_left fun i _ => ?_)
  · exact Prod.ext (UInt16.add_zero offset) rfl
  · refine Prod.ext ?_ rfl
    show offset + UInt16.ofNat (i + 1) = offset + 1 + UInt16.ofNat i
    rw [UInt16.ofNat_add, UInt16.add_comm (UInt16.ofNat i), UInt16.add_assoc]
    rfl

/-- A block that is put in as single writes is its cells, written in their order. -/
theorem writeEach_eq_writes {β : Type u} [Bus β] (bus : β) (offset : UInt16)
    (block : List UInt8) :
    writeEach write bus offset block = writes bus (blockCells offset block) := by
  induction block generalizing bus offset with
  | nil => rfl
  | cons b rest ih =>
    rw [writeEach, ih, blockCells_cons]
    rfl

/-- The cells of a block that ends within the address space: no address wraps. -/
theorem mem_blockCells {offset : UInt16} {block : List UInt8}
    (hfit : offset.toNat + block.length ≤ 65536) {c : UInt16 × UInt8} :
    c ∈ blockCells offset block ↔
      ∃ i < block.length, c.1.toNat = offset.toNat + i ∧ block[i]? = some c.2 := by
  have haddress : ∀ i < block.length, (offset + UInt16.ofNat i).toNat = offset.toNat + i := by
    intro i hi
    rw [toNat_add_ofNat]
    omega
  have hbyte : ∀ i < block.length, block[i]? = some (block.getD i 0) := by
    intro i hi
    rw [List.getD_eq_getElem?_getD, List.getElem?_eq_getElem hi, Option.getD_some]
  simp only [blockCells, List.mem_map, List.mem_range]
  constructor
  · rintro ⟨i, hi, rfl⟩
    exact ⟨i, hi, haddress i hi, hbyte i hi⟩
  · rintro ⟨i, hi, ha, hb⟩
    refine ⟨i, hi, Prod.ext ?_ ?_⟩
    · exact UInt16.toNat_inj.mp ((haddress i hi).trans ha.symm)
    · exact Option.some.inj ((hbyte i hi).symm.trans hb)

theorem length_take_copied (image : List UInt8) (offset : UInt16) :
    (image.take (copied image offset)).length = copied image offset :=
  List.length_take_of_le (Nat.min_le_left ..)

/-- The cells of an image that is loaded are its bytes that there is room for, each at its place
after the offset. -/
theorem mem_cells_load {offset : UInt16} {image : List UInt8} {c : UInt16 × UInt8} :
    c ∈ (Store.load offset image).cells ↔
      ∃ i < copied image offset, c.1.toNat = offset.toNat + i ∧ image[i]? = some c.2 := by
  have hlength := length_take_copied image offset
  have hfit : offset.toNat + (image.take (copied image offset)).length ≤ 65536 := by
    rw [hlength]
    exact offset_add_copied_le image offset
  rw [Store.cells, mem_blockCells hfit, hlength]
  refine exists_congr fun i => and_congr_right fun hi => ?_
  rw [List.getElem?_take_of_lt hi]

end Bus

/-! ## Single writes on a window -/

namespace Window

@[simp] theorem size_write (w : Window) (a : UInt16) (b : UInt8) : (w.write a b).size = w.size := by
  rw [write]
  split <;> rfl

theorem size_writes (w : Window) (cells : List (UInt16 × UInt8)) :
    (Bus.writes w cells).size = w.size := by
  induction cells generalizing w with
  | nil => rfl
  | cons c rest ih => exact (ih (w.write c.1 c.2)).trans (w.size_write c.1 c.2)

theorem bytes_write {w : Window} {a : UInt16} (h : a.toNat < w.size) (i : UInt16) (b : UInt8) :
    (w.write i b).bytes a = if a = i then b else w.bytes a := by
  rw [write]
  split
  · rfl
  · have hne : a ≠ i := by
      rintro rfl
      contradiction
    rw [if_neg hne]

/-- **The law for single writes.** An installed address holds the byte that was written there last,
and what it held before if there is none. -/
theorem read_writes {w : Window} {a : UInt16} (h : a.toNat < w.size)
    (cells : List (UInt16 × UInt8)) :
    Bus.read (Bus.writes w cells) a = (lastIn? cells a).getD (Bus.read w a) := by
  induction cells generalizing w with
  | nil => rfl
  | cons c rest ih =>
    have hrest : Bus.read (Bus.writes w (c :: rest)) a =
        (lastIn? rest a).getD ((w.write c.1 c.2).bytes a) :=
      ih (w := w.write c.1 c.2) (by rw [size_write]; exact h)
    rw [hrest, bytes_write h, ← List.singleton_append, lastIn?_append, lastIn?_singleton]
    cases lastIn? rest a with
    | some b => rfl
    | none =>
      rw [Option.none_or]
      split <;> rfl

end Window

/-! ## Stores -/

namespace Memory

/-- **A store is seen as a write of each of its cells.** -/
theorem window_store (m : Memory) (x : Store) :
    (m.store x).window = Bus.writes m.window x.cells := by
  cases x with
  | write a b => exact (isView_window.write m a b).symm
  | writeWord a w => exact (isView_window.writeWord m a w).symm
  | load offset image =>
    have hload : (Bus.load m.window offset image).1 =
        Bus.writes m.window (Store.load offset image).cells := by
      rw [Bus.load, Bus.take_room, Store.cells, ← Bus.writeEach_eq_writes]
      rfl
    rw [← hload, isView_window.load]
    rfl

theorem window_after (m : Memory) (stores : List Store) :
    (m.after stores).window = Bus.writes m.window (stores.flatMap Store.cells) := by
  induction stores generalizing m with
  | nil => rfl
  | cons x rest ih =>
    have hrest : (m.after (x :: rest)).window =
        Bus.writes (m.store x).window (rest.flatMap Store.cells) := ih (m.store x)
    rw [hrest, window_store, List.flatMap_cons]
    exact (List.foldl_append ..).symm

/-- No store changes what is installed. -/
theorem size_after (m : Memory) (stores : List Store) : (m.after stores).size = m.size := by
  have hwindow := congrArg Window.size (m.window_after stores)
  rwa [Window.size_writes] at hwindow

/-- **The law for stores.** An installed address reads as the byte that was stored there last, and
as what it read before if there is none. What is not installed reads as zero. -/
theorem read_after (m : Memory) (stores : List Store) (a : UInt16) :
    Bus.read (m.after stores) a =
      if a.toNat < m.size then (lastIn? (stores.flatMap Store.cells) a).getD (Bus.read m a)
      else 0 := by
  by_cases h : a.toNat < m.size
  · have hwindow : Bus.read (m.after stores) a = Bus.read (m.after stores).window a := rfl
    rw [if_pos h, hwindow, window_after]
    exact Window.read_writes h _
  · rw [if_neg h]
    show (m.after stores).read a = 0
    rw [read_eq, size_after, if_neg h]

/-- **A word that is written and read back** is kept where it is installed, byte by byte. -/
theorem readWord_writeWord (m : Memory) (a w : UInt16) :
    Bus.readWord (Bus.writeWord m a w) a =
      word (if a.toNat < m.size then lowByte w else 0)
        (if (a + 1).toNat < m.size then highByte w else 0) := by
  have hne : a ≠ a + 1 := by
    intro h
    have hnat := congrArg UInt16.toNat h
    rw [toNat_add_one] at hnat
    omega
  have hread : ∀ i, Bus.read (Bus.writeWord m a w) i =
      if i.toNat < m.size then
        (lastIn? [(a, lowByte w), (a + 1, highByte w)] i).getD (Bus.read m i)
      else 0 := m.read_after [.writeWord a w]
  have hlast : ∀ i, lastIn? [(a, lowByte w), (a + 1, highByte w)] i =
      (if i = a + 1 then some (highByte w) else none).or
        (if i = a then some (lowByte w) else none) := by
    intro i
    rw [← lastIn?_singleton, ← lastIn?_singleton, ← lastIn?_append]
    rfl
  rw [Bus.readWord, hread, hread, hlast, hlast, if_neg hne, if_pos rfl, if_pos rfl]
  rfl

theorem stored_ofSize {size : Nat} {m : Memory} (h : ofSize size = .ok m) (a : UInt16) :
    m.stored a = 0 ∧ m.size = min size 65536 := by
  rw [ofSize] at h
  split at h
  · cases h
  · cases h
    exact ⟨Vector.getElem_replicate _, rfl⟩

/-- **A memory keeps the last byte stored.** A memory of any size but zero can be had, all zero.
After any sequence of writes, word writes and loads, an address that is not installed reads as zero,
and any other as the byte that was stored there last, or zero if there was none. A load puts in as
many bytes of its image as it says, those that there is room for, each at its place after the
offset. A word is two reads, at an address and the next one, which wraps. A word that is written and
read back is itself if both of its bytes are installed, and otherwise the byte that is, with zero in
the place of the other. -/
theorem keeps_last_stored {size : Nat} (hsize : 0 < size) :
    ∃ zeroed : Memory, ofSize size = .ok zeroed ∧ ∀ stores : List Store,
      let m := zeroed.after stores
      (∀ a, Bus.read m a =
        if min size 65536 ≤ a.toNat then 0 else lastStored stores a) ∧
      (∀ offset image,
        (Bus.load m offset image).2 = min image.length (65536 - offset.toNat) ∧
        ∀ c, c ∈ (Store.load offset image).cells ↔
          ∃ i < (Bus.load m offset image).2,
            c.1.toNat = offset.toNat + i ∧ image[i]? = some c.2) ∧
      (∀ a, (Bus.readWord m a).toNat =
        (Bus.read m a).toNat + 256 * (Bus.read m (a + 1)).toNat) ∧
      ∀ a w,
        let back := Bus.readWord (m.store (.writeWord a w)) a
        (a.toNat < size ∧ (a + 1).toNat < size → back = w) ∧
        lowByte back = (if a.toNat < size then lowByte w else 0) ∧
        highByte back = if (a + 1).toNat < size then highByte w else 0 := by
  obtain ⟨zeroed, hzeroed⟩ : ∃ zeroed, ofSize size = .ok zeroed :=
    ⟨_, dif_neg (Nat.pos_iff_ne_zero.mp hsize)⟩
  have hinstalled : zeroed.size = min size 65536 := (stored_ofSize hzeroed 0).2
  have hzero : ∀ a, Bus.read zeroed a = 0 := by
    intro a
    show zeroed.read a = 0
    rw [read_eq, (stored_ofSize hzeroed a).1, ite_self]
  refine ⟨zeroed, hzeroed, fun stores => ⟨?_, ?_, ?_, ?_⟩⟩
  · intro a
    rw [read_after, hzero, hinstalled, ← lastStored]
    by_cases h : min size 65536 ≤ a.toNat
    · rw [if_pos h, if_neg (Nat.not_lt.mpr h)]
    · rw [if_neg h, if_pos (Nat.not_le.mp h)]
  · exact fun offset image => ⟨rfl, fun c => Bus.mem_cells_load⟩
  · intro a
    rw [Bus.readWord, toNat_word]
    omega
  · intro a w back
    have hlt : ∀ i : UInt16, i.toNat < (zeroed.after stores).size ↔ i.toNat < size := by
      intro i
      have hi := i.toNat_lt
      rw [size_after, hinstalled]
      omega
    have hback : back = word (if a.toNat < size then lowByte w else 0)
        (if (a + 1).toNat < size then highByte w else 0) := by
      have hword := (zeroed.after stores).readWord_writeWord a w
      simp only [hlt] at hword
      exact hword
    refine ⟨fun h => ?_, ?_, ?_⟩
    · rw [hback, if_pos h.1, if_pos h.2, word_lowByte_highByte]
    · rw [hback, lowByte_word]
    · rw [hback, highByte_word]

/-- A block of three bytes, and a word over the second and third of them. -/
def overlapping : List Store := [.load 0x0200 [0x11, 0x22, 0x33], .writeWord 0x0201 0xBEEF]

/-- In a memory of 514 bytes the second byte of the block gives way to the low byte of the word, and
neither the third nor the high byte can be read. -/
theorem keeps_last_stored_atEnd :
    0 < 0x0202 ∧ ∃ zeroed : Memory, ofSize 0x0202 = .ok zeroed ∧
      Bus.read (zeroed.after overlapping) 0x0200 = 0x11 ∧
      Bus.read (zeroed.after overlapping) 0x0201 = 0xEF ∧
      Bus.read (zeroed.after overlapping) 0x0202 = 0 := by
  have hsize : 0 < 0x0202 := by decide
  obtain ⟨zeroed, hzeroed, hkeeps⟩ := keeps_last_stored hsize
  obtain ⟨hread, -⟩ := hkeeps overlapping
  refine ⟨hsize, zeroed, hzeroed, ?_, ?_, ?_⟩
  · exact (hread 0x0200).trans (by decide)
  · exact (hread 0x0201).trans (by decide)
  · exact (hread 0x0202).trans (by decide)

end Memory

end Nmos6502
