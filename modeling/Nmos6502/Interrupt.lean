/-!
# Interrupt requests

Hardware asks for service on two lines. A non-maskable request (NMI) is always served at the next
step; a maskable one (IRQ) waits while the flag I of the status is set. The software interrupt (BRK)
is an instruction. It is served in the step that decodes it and never waits.

What waits is kept in an `InterruptController`: one slot, and a latch for a second NMI. A request
that arrives meets what is in the slot, and the five arms of `InterruptController.raise` say how
they collide: it goes into an empty slot, an NMI takes the place of an IRQ, a second NMI is latched
behind the first and further ones are dropped, and anything else that meets an NMI is dropped. A
second IRQ changes nothing.

The record has states that no machine gets into: the latch can be set with no NMI in the slot, and
BRK can stand there. `InterruptController.WellFormed` excludes them. It holds of the empty record,
and every operation of a machine keeps it, because the hardware lines are all that is ever raised.
`Pending` is a record with that proof.

## Main definitions

* `Request`, `Interrupt` — IRQ and NMI, and what can be served
* `InterruptController` — the slot and the latch, with `raise`, `takeServiceable` and `clear`
* `Collision`, `InterruptController.collision?` — what becomes of a request that meets another
* `Pending` — the records that a machine can have

## Main results

* `InterruptController.WellFormed.raise`, `InterruptController.WellFormed.takeServiceable` — a
  record stays well-formed
-/

namespace Nmos6502

/-- A hardware request. -/
inductive Request
  /-- The maskable line. -/
  | irq
  /-- The non-maskable line. -/
  | nmi
  deriving DecidableEq, Repr

/-- What a step can serve. -/
inductive Interrupt
  /-- An IRQ or an NMI. -/
  | hardware (r : Request)
  /-- The instruction BRK. -/
  | brk
  deriving DecidableEq, Repr

/-- `Irq` or `Nmi`. -/
def Request.name : Request → String
  | irq => "Irq"
  | nmi => "Nmi"

/-- `Irq`, `Nmi` or `Brk`. -/
def Interrupt.name : Interrupt → String
  | hardware r => r.name
  | brk => "Brk"

/-- What happened to a request that met another. -/
inductive Collision
  /-- An NMI took the place of an IRQ. -/
  | irqReplaced
  /-- A second NMI was latched behind the first. -/
  | nmiLatched
  /-- A third NMI was dropped. -/
  | nmiDropped
  /-- Some other request was dropped, because an NMI was in the slot. -/
  | dropped (i : Interrupt)
  deriving DecidableEq, Repr

/-! ## The slot and the latch -/

/-- Requests that wait for service. -/
structure InterruptController where
  /-- The slot: the request that is next. -/
  slot : Option Interrupt := none
  /-- The latch: a second NMI waits behind the one in the slot. -/
  nmiLatched : Bool := false
  deriving DecidableEq, Repr

namespace InterruptController

/-- A request arrives. -/
def raise (k : InterruptController) (i : Interrupt) : InterruptController :=
  match k.slot, i with
  | none, i => { k with slot := some i }
  | some (.hardware .irq), .hardware .nmi => { k with slot := some (.hardware .nmi) }
  | some (.hardware .nmi), .hardware .nmi =>
    if k.nmiLatched then k else { k with nmiLatched := true }
  | some (.hardware .nmi), _ => k
  | some _, _ => k

/-- What becomes of a request that arrives, where that is worth a message. -/
def collision? (k : InterruptController) (i : Interrupt) : Option Collision :=
  match k.slot, i with
  | none, _ => none
  | some (.hardware .irq), .hardware .nmi => some .irqReplaced
  | some (.hardware .nmi), .hardware .nmi =>
    some (if k.nmiLatched then .nmiDropped else .nmiLatched)
  | some (.hardware .nmi), i => some (.dropped i)
  | some _, _ => none

/-- The request that a step serves, with what waits after it. An IRQ is left in the slot while I is
set. A latched NMI moves up behind an NMI. -/
@[inline] def takeServiceable (k : InterruptController) (interruptDisable : Bool) :
    Option (Interrupt × InterruptController) :=
  match k.slot with
  | none => none
  | some i =>
    if i = .hardware .irq ∧ interruptDisable then none
    else if i = .hardware .nmi ∧ k.nmiLatched then
      some (i, { k with slot := some (.hardware .nmi), nmiLatched := false })
    else some (i, { k with slot := none })

/-- Drop what waits: the slot and the latch are cleared. -/
def clear (k : InterruptController) : InterruptController :=
  { k with slot := none, nmiLatched := false }

/-- The request in the slot. -/
def state (k : InterruptController) : Option Interrupt := k.slot

/-! ## The records of a machine -/

/-- An NMI is latched only behind an NMI, and BRK is not in the slot. -/
structure WellFormed (k : InterruptController) : Prop where
  slot_of_latched : k.nmiLatched = true → k.slot = some (.hardware .nmi)
  slot_ne_brk : k.slot ≠ some .brk

theorem wellFormed_empty : ({} : InterruptController).WellFormed := ⟨nofun, nofun⟩

theorem wellFormed_clear (k : InterruptController) : k.clear.WellFormed := ⟨nofun, nofun⟩

/-- **The arrival of an IRQ or an NMI** keeps a record well-formed. -/
theorem WellFormed.raise {k : InterruptController} (h : k.WellFormed) (r : Request) :
    (k.raise (.hardware r)).WellFormed := by
  obtain ⟨slot, latched⟩ := k
  obtain ⟨hlatched, hbrk⟩ := h
  rcases slot with _ | (_ | _) | _
  · -- the slot is empty, so nothing is latched
    cases latched with
    | true => cases hlatched rfl
    | false => exact ⟨nofun, nofun⟩
  · cases latched with
    | true => cases hlatched rfl
    | false => cases r <;> exact ⟨nofun, nofun⟩
  · cases r <;> cases latched <;> exact ⟨fun _ => rfl, nofun⟩
  · exact absurd rfl hbrk

/-- **A service** keeps a record well-formed. -/
theorem WellFormed.takeServiceable {k rest : InterruptController} (h : k.WellFormed)
    {interruptDisable : Bool} {i : Interrupt}
    (ht : k.takeServiceable interruptDisable = some (i, rest)) : rest.WellFormed := by
  rw [InterruptController.takeServiceable] at ht
  split at ht
  · cases ht
  · rename_i j hslot
    split at ht
    · cases ht
    · split at ht
      · cases ht
        exact ⟨nofun, nofun⟩
      · rename_i hlatch
        have hfree : k.nmiLatched ≠ true := fun hlatched =>
          hlatch ⟨Option.some.inj (hslot ▸ h.slot_of_latched hlatched), hlatched⟩
        cases ht
        exact ⟨fun hlatched => absurd hlatched hfree, nofun⟩

end InterruptController

/-- A well-formed record of waiting requests. -/
@[ext]
structure Pending where
  controller : InterruptController
  wellFormed : controller.WellFormed

namespace Pending

/-- Nothing waits. -/
def idle : Pending := ⟨{}, InterruptController.wellFormed_empty⟩

def raise (p : Pending) (r : Request) : Pending :=
  ⟨p.controller.raise (.hardware r), p.wellFormed.raise r⟩

@[inline] def take? (p : Pending) (interruptDisable : Bool) : Option (Interrupt × Pending) :=
  match h : p.controller.takeServiceable interruptDisable with
  | some (i, rest) => some (i, ⟨rest, p.wellFormed.takeServiceable h⟩)
  | none => none

def clear (p : Pending) : Pending := ⟨p.controller.clear, p.controller.wellFormed_clear⟩

/-- The request that `interrupt_state` shows. -/
def front? (p : Pending) : Option Interrupt := p.controller.state

end Pending

end Nmos6502
