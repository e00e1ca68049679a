import Nmos6502.Bus

/-!
# A bus that keeps everything

The plainest device on the bus: every address holds what was written to it last. It is a function
from addresses to bytes, so what a machine on it reads can be computed from the few bytes that a
program needs, without a backing store for all the others.

## Main definitions

* `Ram`, with the bus operations
* `Ram.holding` — the memory with given contents
-/

namespace Nmos6502

/-- Memory at every address. -/
structure Ram where
  bytes : UInt16 → UInt8

namespace Ram

instance : Bus Ram where
  read m a := m.bytes a
  write m a b := ⟨fun i => if i = a then b else m.bytes i⟩

/-- The memory that holds the given bytes at the given addresses, the first for each, and zero
elsewhere. -/
def holding (contents : List (UInt16 × UInt8)) : Ram := ⟨fun a => (contents.lookup a).getD 0⟩

end Ram

end Nmos6502
