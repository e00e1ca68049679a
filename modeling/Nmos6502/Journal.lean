import Nmos6502.Interrupt
import Nmos6502.Listing

/-!
# The journal

A machine keeps a journal of what it does. What can be entered is a type of its own, so an entry
has a level and a wording that depend on nothing but the event, and the threshold of the journal
decides only whether the event is kept. Nothing else reads the journal.

## Main definitions

* `Level` — five levels, from errors to every instruction
* `Event`, `Event.level`, `Event.text` — what can be entered
* `Journal`, `Journal.record` — the entries so far, and one more
-/

namespace Nmos6502

/-- How important an event is. No event is of the level in the middle, but a threshold may be. -/
inductive Level
  | error | warn | info | debug | trace
  deriving DecidableEq, Repr

namespace Level

/-- The position of the level, the most important first. -/
def rank : Level → Nat
  | error => 0
  | warn => 1
  | info => 2
  | debug => 3
  | trace => 4

def name : Level → String
  | error => "ERROR"
  | warn => "WARN"
  | info => "INFO"
  | debug => "DEBUG"
  | trace => "TRACE"

end Level

/-- What a machine enters into its journal. -/
inductive Event
  /-- More memory was asked for than there are addresses. -/
  | sizeClamped (size : Nat)
  /-- The machine was reset and continues at `pc`. -/
  | reset (pc : UInt16)
  /-- A program was put in and the machine continues at `pc`. -/
  | loaded (count : Nat) (offset pc : UInt16)
  /-- A step failed at an illegal byte. -/
  | illegalOpcode (opcode : UInt8) (address : UInt16)
  /-- A step passed over an illegal byte. -/
  | skippedOpcode (opcode : UInt8) (address : UInt16)
  /-- The instruction is about to be executed. -/
  | executing (line : Line)
  /-- An IRQ, an NMI or a BRK was served through the vector and continues at `pc`. -/
  | serviced (i : Interrupt) (returnAddress vector pc : UInt16)
  /-- Two requests met. -/
  | collision (c : Collision)
  deriving DecidableEq, Repr

namespace Event

def level : Event → Level
  | illegalOpcode _ _ => .error
  | sizeClamped _ | skippedOpcode _ _ => .warn
  | reset _ | loaded _ _ _ | serviced _ _ _ _ | collision _ => .debug
  | executing _ => .trace

def text : Event → String
  | sizeClamped size =>
    "installed memory size 0x" ++ Hex.plain size
      ++ " exceeds the address space; clamping to 0x10000"
  | reset pc => "reset: PC=$" ++ Hex.word pc
  | loaded count offset pc =>
    "loaded " ++ toString count ++ " bytes at $" ++ Hex.word offset ++ ", PC=$" ++ Hex.word pc
  | illegalOpcode opcode address =>
    "illegal opcode 0x" ++ Hex.byte opcode ++ " at $" ++ Hex.word address
  | skippedOpcode opcode address =>
    "skipping illegal opcode 0x" ++ Hex.byte opcode ++ " at $" ++ Hex.word address
  | executing line => Hex.word line.address ++ "  " ++ line.text
  | serviced i returnAddress vector pc =>
    i.name ++ " serviced: return $" ++ Hex.word returnAddress ++ ", vector $" ++ Hex.word vector
      ++ " -> $" ++ Hex.word pc
  | collision .irqReplaced => "NMI replaces pending IRQ"
  | collision (.dropped i) => i.name ++ " dropped: NMI pending"
  | collision .nmiLatched => "NMI latched behind pending NMI"
  | collision .nmiDropped => "NMI dropped: one already latched"

end Event

/-- The events that were important enough, the latest first. -/
structure Journal where
  /-- The least important level that is kept; `none` keeps nothing. -/
  threshold : Option Level := none
  entries : List Event := []
  deriving DecidableEq, Repr

namespace Journal

/-- Whether events of a level are kept. -/
@[inline] def keeps (j : Journal) (l : Level) : Bool :=
  match j.threshold with
  | none => false
  | some t => l.rank ≤ t.rank

/-- Enter an event, if its level is kept. -/
@[inline] def record (j : Journal) (e : Event) : Journal :=
  if j.keeps e.level then { j with entries := e :: j.entries } else j

/-- The entries in the order in which they were made. -/
def toList (j : Journal) : List Event := j.entries.reverse

def cleared (j : Journal) : Journal := { j with entries := [] }

@[simp] theorem threshold_record (j : Journal) (e : Event) :
    (j.record e).threshold = j.threshold := by
  rw [record]
  split <;> rfl

theorem toList_record (j : Journal) (e : Event) :
    (j.record e).toList = j.toList ++ if j.keeps e.level then [e] else [] := by
  rw [record]
  split <;> simp [toList, *]

end Journal

end Nmos6502
