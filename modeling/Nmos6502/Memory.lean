import Nmos6502.Bus

/-!
# The memory

A backing store for the whole address space, of which the first `size` bytes are installed. Bytes
that are not installed read as zero and ignore writes. A block transfer goes straight into the
backing store, whatever is installed, as a device would that does not go through the processor; a
byte that lands above the installed size is there but cannot be read.

## Main definitions

* `Memory`, with the bus operations
* `Memory.full`, `Memory.ofSize` — everything installed, or a given size
* `Memory.inRange` — whether an address is installed

## Main results

* `Memory.stored_put`, `Memory.stored_write` — the backing store after one byte is put in
* `Memory.read_eq` — reading is the backing store below the installed size and zero above
-/

namespace Nmos6502

/-- A memory cannot be built without any bytes. -/
inductive SizeError
  | zero
  deriving DecidableEq, Repr

def SizeError.message : SizeError → String
  | zero => "installed memory size must be non-zero"

/-- Memory for the whole address space, of which the first `size` bytes are installed. -/
structure Memory where
  /-- The backing store. -/
  data : Vector UInt8 65536
  /-- Installed bytes. -/
  size : Nat
  size_pos : 0 < size
  size_le : size ≤ 65536

namespace Memory

/-! ## Building -/

/-- Everything installed, all zero. -/
def full : Memory := ⟨.replicate 65536 0, 65536, by decide, by decide⟩

/-- A size, cut to the address space. -/
def clampedSize (size : Nat) : Nat := min size 65536

/-- The first `size` bytes installed, all zero. More than the address space counts as all of it. -/
def ofSize (size : Nat) : Except SizeError Memory :=
  if h : size = 0 then .error .zero
  else .ok ⟨.replicate 65536 0, clampedSize size, by unfold clampedSize; omega,
    Nat.min_le_right ..⟩

/-! ## The bus operations -/

def inRange (m : Memory) (a : UInt16) : Bool := a.toNat < m.size

/-- The byte in the backing store. -/
def stored (m : Memory) (a : UInt16) : UInt8 :=
  have := a.toNat_lt
  m.data[a.toNat]

/-- Put a byte into the backing store. -/
def put (m : Memory) (a : UInt16) (b : UInt8) : Memory :=
  { m with data := m.data.set a.toNat b a.toNat_lt }

/-- The byte at an address, zero where nothing is installed. -/
def read (m : Memory) (a : UInt16) : UInt8 := if m.inRange a then m.stored a else 0

/-- Write a byte, dropped where nothing is installed. -/
def write (m : Memory) (a : UInt16) (b : UInt8) : Memory := if m.inRange a then m.put a b else m

instance : Bus Memory where
  read := read
  write := write
  transfer := writeEach put

/-! ## What the operations do to the backing store -/

theorem stored_put (m : Memory) (a i : UInt16) (b : UInt8) :
    (m.put a b).stored i = if i = a then b else m.stored i := by
  simp only [stored, put, Vector.getElem_set, UInt16.toNat_inj, eq_comm]

@[simp] theorem size_put (m : Memory) (a : UInt16) (b : UInt8) : (m.put a b).size = m.size := rfl

@[simp] theorem size_write (m : Memory) (a : UInt16) (b : UInt8) : (m.write a b).size = m.size := by
  rw [write]
  split <;> rfl

theorem stored_write (m : Memory) (a i : UInt16) (b : UInt8) :
    (m.write a b).stored i = if i = a ∧ m.inRange a then b else m.stored i := by
  rw [write]
  split <;> simp_all [stored_put]

theorem read_eq (m : Memory) (a : UInt16) :
    m.read a = if a.toNat < m.size then m.stored a else 0 := by
  simp [read, inRange]

end Memory

end Nmos6502
