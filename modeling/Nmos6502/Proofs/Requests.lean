import Nmos6502.Cpu.Load
import Nmos6502.Proofs.Frame

/-!
# Counting outstanding requests

What waits for service can be said with a number and a flag: how many NMIs have arrived and not been
served, and whether an IRQ has. `Outstanding` keeps the two and forgets everything else about the
machine. Its rules mention no slot, no latch and no order of arrival: an NMI counts up to two and
drops the IRQ, an IRQ counts when no NMI is outstanding, a step serves the NMIs first, and a reset
forgets both.

The machine keeps an `InterruptController`, a slot and a latch. Eight records of a slot and a latch
can be written down, and four of them stand for a count, `InterruptController.Represents`. In those
four an NMI is latched only behind an NMI in the slot, and the slot does not hold BRK. The empty
record is one of the four, and `raise`, `take_serviceable` and `clear` lead from them to each other
by the rules of the count. Nothing is assumed of the record for that.

This module runs such a record and the count beside a machine, over any history of requests, steps,
resets and loads with arbitrary changes in between, and shows that the three never part. Record and
count see one thing of the machine, the flag I at the start of a step. So a handler can do what it
likes: no instruction touches what is waiting, which is `Cpu.pending_fetch`.

## Main definitions

* `Outstanding` — the count, with the rules `Outstanding.raise` and `Outstanding.serve?`
* `InterruptController.Represents` — the records that stand for a count
* `Pending.outstanding` — the count that the record of a machine stands for
* `Happening`, `Cpu.undergo` — what can happen to a machine from outside
* `Cpu.alongside` — a machine, a record and a count over a history

## Main results

* `InterruptController.Represents.raise`, `InterruptController.Represents.takeServiceable` — the
  record follows the rules of the count
* `InterruptController.Represents.wellFormed` — the invariants of the record
* `Cpu.outstanding_undergo` — one happening keeps machine and count together
* `Cpu.history_follows_count` — what the count says of a machine after any history
-/

universe u

namespace Nmos6502

/-! ## The count -/

/-- Requests that have arrived and have not been served. -/
@[ext]
structure Outstanding where
  /-- How many of them are NMIs. -/
  nmis : Nat
  /-- Whether one of them is an IRQ. -/
  irq : Bool
  nmis_le_two : nmis ≤ 2
  nmis_eq_zero : irq = true → nmis = 0

namespace Outstanding

def empty : Outstanding := ⟨0, false, by decide, nofun⟩

/-- A request arrives. -/
def raise (w : Outstanding) : Request → Outstanding
  | .nmi => ⟨min 2 (w.nmis + 1), false, Nat.min_le_left .., nofun⟩
  | .irq => if h : w.nmis = 0 then ⟨w.nmis, true, w.nmis_le_two, fun _ => h⟩ else w

theorem nmis_raise_irq (w : Outstanding) : (w.raise .irq).nmis = w.nmis := by
  rw [raise]
  split <;> rfl

theorem irq_raise_irq (w : Outstanding) : (w.raise .irq).irq = true ↔ w.nmis = 0 := by
  rw [raise]
  split
  · simp [*]
  · exact ⟨w.nmis_eq_zero, fun h => absurd h ‹_›⟩

/-- The request that a step serves, with what is outstanding after it. -/
def serve? (w : Outstanding) (masked : Bool) : Option (Request × Outstanding) :=
  if 0 < w.nmis then
    some (.nmi, ⟨w.nmis - 1, w.irq, by have := w.nmis_le_two; omega,
      fun h => by rw [w.nmis_eq_zero h]⟩)
  else if w.irq ∧ masked = false then some (.irq, ⟨w.nmis, false, w.nmis_le_two, nofun⟩)
  else none

/-- What is outstanding after a step. -/
def afterStep (w : Outstanding) (masked : Bool) : Outstanding :=
  match w.serve? masked with
  | some (_, rest) => rest
  | none => w

end Outstanding

/-! ## The record follows the count -/

namespace InterruptController

/-- The records that stand for a count. -/
inductive Represents : InterruptController → Outstanding → Prop
  /-- The slot is empty. -/
  | idle {w : Outstanding} (hn : w.nmis = 0) (hi : w.irq = false) : Represents ⟨none, false⟩ w
  /-- An IRQ is in the slot. -/
  | irq {w : Outstanding} (hn : w.nmis = 0) (hi : w.irq = true) :
    Represents ⟨some (.hardware .irq), false⟩ w
  /-- An NMI is in the slot. -/
  | nmi {w : Outstanding} (hn : w.nmis = 1) (hi : w.irq = false) :
    Represents ⟨some (.hardware .nmi), false⟩ w
  /-- An NMI is in the slot, and another one is latched. -/
  | latched {w : Outstanding} (hn : w.nmis = 2) (hi : w.irq = false) :
    Represents ⟨some (.hardware .nmi), true⟩ w

namespace Represents

variable {k rest : InterruptController} {w : Outstanding}

theorem empty : Represents {} .empty := .idle rfl rfl

theorem clear (k : InterruptController) : k.clear.Represents .empty := .idle rfl rfl

/-- **The arrival of an IRQ or an NMI** follows the rule of the count. -/
theorem raise (h : k.Represents w) (r : Request) :
    (k.raise (.hardware r)).Represents (w.raise r) := by
  cases r with
  | irq =>
    have hirq : w.nmis ≠ 0 → (w.raise .irq).irq = false := fun hn =>
      Bool.eq_false_iff.mpr fun h => hn (w.irq_raise_irq.mp h)
    cases h with
    | idle hn hi => exact .irq (w.nmis_raise_irq.trans hn) (w.irq_raise_irq.mpr hn)
    | irq hn hi => exact .irq (w.nmis_raise_irq.trans hn) (w.irq_raise_irq.mpr hn)
    | nmi hn hi => exact .nmi (w.nmis_raise_irq.trans hn) (hirq (by omega))
    | latched hn hi => exact .latched (w.nmis_raise_irq.trans hn) (hirq (by omega))
  | nmi =>
    have hcount : (w.raise .nmi).nmis = min 2 (w.nmis + 1) := rfl
    cases h with
    | idle hn hi => exact .nmi (by omega) rfl
    | irq hn hi => exact .nmi (by omega) rfl
    | nmi hn hi => exact .latched (by omega) rfl
    | latched hn hi => exact .latched (by omega) rfl

/-- **A service** follows the rule of the count: neither serves anything, or both serve the same,
and what is left of the one stands for what is left of the other. -/
theorem takeServiceable (h : k.Represents w) (masked : Bool) :
    k.takeServiceable masked = none ∧ w.serve? masked = none ∨
      ∃ r rest v, k.takeServiceable masked = some (.hardware r, rest) ∧
        w.serve? masked = some (r, v) ∧ rest.Represents v := by
  cases h with
  | idle hn hi => exact .inl ⟨rfl, by simp [Outstanding.serve?, hn, hi]⟩
  | irq hn hi =>
    cases masked with
    | true => exact .inl ⟨rfl, by simp [Outstanding.serve?, hn]⟩
    | false =>
      have hserve : w.serve? false = some (.irq, ⟨w.nmis, false, w.nmis_le_two, nofun⟩) := by
        simp [Outstanding.serve?, hn, hi]
      exact .inr ⟨.irq, _, _, rfl, hserve, .idle hn rfl⟩
  | nmi hn hi =>
    have hleft : w.nmis - 1 = 0 := by omega
    exact .inr ⟨.nmi, _, _, rfl, if_pos (by omega), .idle hleft hi⟩
  | latched hn hi =>
    have hleft : w.nmis - 1 = 1 := by omega
    exact .inr ⟨.nmi, _, _, rfl, if_pos (by omega), .nmi hleft hi⟩

/-- **The invariants of the record**: an NMI is latched only behind an NMI in the slot, and BRK is
not there. -/
theorem wellFormed (h : k.Represents w) : k.WellFormed := by
  cases h with
  | latched hn hi => exact ⟨fun _ => rfl, nofun⟩
  | _ => exact ⟨nofun, nofun⟩

/-- What the slot and the latch say of the count. -/
theorem slot_eq (h : k.Represents w) :
    k.slot = (if 0 < w.nmis then some (.hardware .nmi)
      else if w.irq = true then some (.hardware .irq) else none) := by
  cases h with
  | idle hn hi | irq hn hi | nmi hn hi | latched hn hi => simp [hn, hi]

theorem nmiLatched_iff (h : k.Represents w) : k.nmiLatched = true ↔ w.nmis = 2 := by
  cases h with
  | idle hn hi | irq hn hi | nmi hn hi | latched hn hi => simp [hn]

/-- A record stands for one count. -/
theorem unique {v : Outstanding} (h : k.Represents w) (h' : k.Represents v) : w = v := by
  cases h with
  | idle hn hi | irq hn hi | nmi hn hi | latched hn hi =>
    cases h' with | _ hn' hi' => exact Outstanding.ext (hn.trans hn'.symm) (hi.trans hi'.symm)

end Represents

end InterruptController

namespace Pending

/-- The count that the record of a machine stands for. -/
def outstanding (p : Pending) : Outstanding :=
  match p.controller.slot, p.controller.nmiLatched with
  | some (.hardware .nmi), true => ⟨2, false, by decide, nofun⟩
  | some (.hardware .nmi), false => ⟨1, false, by decide, nofun⟩
  | some (.hardware .irq), _ => ⟨0, true, by decide, fun _ => rfl⟩
  | _, _ => .empty

/-- **Every record of a machine stands for a count.** -/
theorem represents_outstanding (p : Pending) : p.controller.Represents p.outstanding := by
  obtain ⟨⟨slot, latched⟩, hlatched, hbrk⟩ := p
  have hfree : slot ≠ some (.hardware .nmi) → latched = false := fun hslot =>
    Bool.eq_false_iff.mpr fun h => hslot (hlatched h)
  rcases slot with _ | (_ | _) | _
  · cases hfree nofun
    exact .idle rfl rfl
  · cases hfree nofun
    exact .irq rfl rfl
  · cases latched with
    | true => exact .latched rfl rfl
    | false => exact .nmi rfl rfl
  · exact absurd rfl hbrk

theorem take?_eq_none_iff (p : Pending) (masked : Bool) :
    p.take? masked = none ↔ p.controller.takeServiceable masked = none := by
  rw [take?]
  split <;> simp [*]

theorem take?_eq_some_iff (p : Pending) (masked : Bool) (i : Interrupt) (rest : Pending) :
    p.take? masked = some (i, rest) ↔
      p.controller.takeServiceable masked = some (i, rest.controller) := by
  rw [take?]
  split <;> simp [*, Pending.ext_iff]

/-- **The record of a machine serves what the count serves.** -/
theorem take?_cases (p : Pending) (masked : Bool) :
    p.take? masked = none ∧ p.outstanding.serve? masked = none ∨
      ∃ r rest, p.take? masked = some (.hardware r, rest) ∧
        p.outstanding.serve? masked = some (r, rest.outstanding) := by
  rcases p.represents_outstanding.takeServiceable masked with
    ⟨ht, hs⟩ | ⟨r, left, v, ht, hs, hrest⟩
  · exact .inl ⟨(p.take?_eq_none_iff masked).mpr ht, hs⟩
  · let rest : Pending := ⟨left, p.wellFormed.takeServiceable ht⟩
    obtain rfl : v = rest.outstanding := hrest.unique rest.represents_outstanding
    exact .inr ⟨r, rest, (p.take?_eq_some_iff masked _ rest).mpr ht, hs⟩

theorem front?_eq (p : Pending) :
    p.front? = (if 0 < p.outstanding.nmis then some (.hardware .nmi)
      else if p.outstanding.irq = true then some (.hardware .irq) else none) :=
  p.represents_outstanding.slot_eq

theorem front?_eq_nmi_iff (p : Pending) :
    p.front? = some (.hardware .nmi) ↔ 0 < p.outstanding.nmis := by
  rw [front?_eq]
  split
  · simp [*]
  · split <;> simp [*]

theorem front?_eq_irq_iff (p : Pending) :
    p.front? = some (.hardware .irq) ↔ p.outstanding.irq = true := by
  have hzero := p.outstanding.nmis_eq_zero
  rw [front?_eq]
  split
  · rename_i hpos
    simp only [Option.some.injEq, Interrupt.hardware.injEq, reduceCtorEq, false_iff]
    exact fun h => absurd (hzero h) (Nat.ne_of_gt hpos)
  · split <;> simp [*]

theorem front?_eq_none_iff (p : Pending) :
    p.front? = none ↔ p.outstanding.nmis = 0 ∧ p.outstanding.irq = false := by
  rw [front?_eq]
  split
  · simp only [reduceCtorEq, false_iff]
    omega
  · split <;> simp_all

end Pending

/-! ## Histories -/

/-- What can happen to a machine from outside. -/
inductive Happening (β : Type u)
  /-- A request arrives. -/
  | raise (r : Request)
  | step
  | reset
  | load (image : List UInt8) (offset : UInt16)
  /-- Registers, bus and settings become any others. -/
  | change (regs : Registers) (bus : β) (config : Config)

/-- The count after a happening. `masked` is the flag I of the machine before it. -/
def Outstanding.undergo {β : Type u} (w : Outstanding) (masked : Bool) : Happening β → Outstanding
  | .raise r => w.raise r
  | .step => w.afterStep masked
  | .reset | .load _ _ => .empty
  | .change _ _ _ => w

namespace InterruptController

/-- What the record holds after a step. -/
def afterStep (k : InterruptController) (masked : Bool) : InterruptController :=
  match k.takeServiceable masked with
  | some (_, rest) => rest
  | none => k

/-- The record after a happening. -/
def undergo {β : Type u} (k : InterruptController) (masked : Bool) :
    Happening β → InterruptController
  | .raise r => k.raise (.hardware r)
  | .step => k.afterStep masked
  | .reset | .load _ _ => k.clear
  | .change _ _ _ => k

theorem Represents.undergo {β : Type u} {k : InterruptController} {w : Outstanding}
    (h : k.Represents w) (masked : Bool) (e : Happening β) :
    (k.undergo masked e).Represents (w.undergo masked e) := by
  cases e with
  | raise r => exact h.raise r
  | reset => exact .clear k
  | load image offset => exact .clear k
  | change regs bus config => exact h
  | step =>
    show (k.afterStep masked).Represents (w.afterStep masked)
    rw [afterStep, Outstanding.afterStep]
    rcases h.takeServiceable masked with ⟨ht, hs⟩ | ⟨r, rest, v, ht, hs, hrest⟩
    · rw [ht, hs]
      exact h
    · rw [ht, hs]
      exact hrest

end InterruptController

namespace Cpu

variable {β : Type u} [Bus β]

/-- The machine after a happening. -/
def undergo (c : Cpu β) : Happening β → Cpu β
  | .raise r => c.raise r
  | .step => c.step.2
  | .reset => c.reset
  | .load image offset => (c.load image offset).2
  | .change regs bus config => { c with regs, bus, config }

/-- A machine, a record and a count, side by side over a history. -/
def alongside (c : Cpu β) (k : InterruptController) (w : Outstanding) :
    List (Happening β) → Cpu β × InterruptController × Outstanding
  | [] => (c, k, w)
  | e :: rest => (c.undergo e).alongside (k.undergo c.masked e) (w.undergo c.masked e) rest

/-! ## What each happening does to what is waiting -/

omit [Bus β] in
theorem pending_raise (c : Cpu β) (r : Request) : (c.raise r).pending = c.pending.raise r := by
  rw [raise_eq]

omit [Bus β] in
/-- What is due is an IRQ or an NMI, and it is what the count serves. -/
theorem due?_cases (c : Cpu β) :
    c.due? = none ∧ c.pending.outstanding.serve? c.masked = none ∨
      ∃ r rest, c.due? = some (.hardware r, rest) ∧
        c.pending.outstanding.serve? c.masked = some (r, rest.outstanding) :=
  c.pending.take?_cases c.masked

/-- **The record of a machine** does at every happening what a record alone does. -/
theorem controller_undergo (c : Cpu β) (e : Happening β) :
    (c.undergo e).pending.controller = c.pending.controller.undergo c.masked e := by
  cases e with
  | raise r => exact congrArg Pending.controller (c.pending_raise r)
  | reset => rfl
  | load image offset => rfl
  | change regs bus config => rfl
  | step =>
    show c.step.2.pending.controller = c.pending.controller.afterStep c.masked
    rw [InterruptController.afterStep]
    cases hd : c.due? with
    | some due =>
      rw [(c.pending.take?_eq_some_iff c.masked due.1 due.2).mp hd, step_of_due hd]
      rfl
    | none =>
      rw [(c.pending.take?_eq_none_iff c.masked).mp hd, step_of_not_due hd, pending_fetch]

theorem outstanding_undergo (c : Cpu β) (e : Happening β) :
    (c.undergo e).pending.outstanding = c.pending.outstanding.undergo c.masked e := by
  refine (c.undergo e).pending.represents_outstanding.unique ?_
  rw [controller_undergo]
  exact c.pending.represents_outstanding.undergo c.masked e

/-- A machine, a record and a count stay together over a history. -/
theorem alongside_represents {c : Cpu β} {k : InterruptController} {w : Outstanding}
    (hk : c.pending.controller = k) (hw : k.Represents w) (events : List (Happening β)) :
    (c.alongside k w events).1.pending.controller = (c.alongside k w events).2.1 ∧
      (c.alongside k w events).2.1.Represents (c.alongside k w events).2.2 := by
  induction events generalizing c k w with
  | nil => exact ⟨hk, hw⟩
  | cons e rest ih =>
    subst hk
    exact ih (c.controller_undergo e) (hw.undergo c.masked e)

/-! ## What the count says of a machine -/

/-- A step reports the hardware request that the count serves, and no other. -/
theorem step_eq_hardware_iff_serve? (c : Cpu β) (r : Request) (n : Nat) :
    c.step.1 = .ok (.interrupt (.hardware r) n) ↔
      (∃ rest, c.pending.outstanding.serve? c.masked = some (r, rest)) ∧ n = serviceCycles := by
  rw [step_eq_interrupt_iff, interrupt?_eq_hardware_iff]
  refine and_congr_left fun _ => ?_
  rcases c.due?_cases with ⟨hd, hs⟩ | ⟨q, rest, hd, hs⟩
  · simp [hd, hs]
  · simp [hd, hs, eq_comm]

omit [Bus β] in
theorem due?_eq_none_of_serve? {c : Cpu β} (h : c.pending.outstanding.serve? c.masked = none) :
    c.due? = none := by
  rcases c.due?_cases with ⟨hd, -⟩ | ⟨r, rest, -, hs⟩
  · exact hd
  · rw [hs] at h
    cases h

/-- **A machine follows its count.** Switch a machine on, on any bus and with any settings, and let
any history befall it. Beside it, let the history befall an empty record of a slot and a latch, and
an empty count. Then the machine has that record. The slot holds an NMI if any is outstanding, an
IRQ if one is, and else nothing, BRK never; the latch is set if two NMIs are outstanding, and only
behind an NMI. So the state that the machine shows is what the count says. The next step serves the
request that the count serves, and a step that serves none is the execution of the byte at the
program counter. Every part of a history is a history, so this holds all along. -/
theorem history_follows_count (config : Config) (journal : Journal) (bus : β)
    (events : List (Happening β)) :
    let s := (powerOn config journal bus).alongside {} .empty events
    s.1.pending.controller = s.2.1 ∧
      (s.2.1.slot = if 0 < s.2.2.nmis then some (.hardware .nmi)
        else if s.2.2.irq = true then some (.hardware .irq) else none) ∧
      (s.2.1.nmiLatched = true ↔ s.2.2.nmis = 2) ∧
      (s.2.1.nmiLatched = true → s.2.1.slot = some (.hardware .nmi)) ∧
      s.2.1.slot ≠ some .brk ∧
      (s.1.pending.front? = some (.hardware .nmi) ↔ 0 < s.2.2.nmis) ∧
      (s.1.pending.front? = some (.hardware .irq) ↔ s.2.2.irq = true) ∧
      (s.1.pending.front? = none ↔ s.2.2.nmis = 0 ∧ s.2.2.irq = false) ∧
      (∀ r n, s.1.step.1 = .ok (.interrupt (.hardware r) n) ↔
        (∃ rest, s.2.2.serve? s.1.masked = some (r, rest)) ∧ n = serviceCycles) ∧
      (s.2.2.serve? s.1.masked = none → s.1.step = s.1.fetch) := by
  intro s
  obtain ⟨hrecord, hcount⟩ : s.1.pending.controller = s.2.1 ∧ s.2.1.Represents s.2.2 :=
    alongside_represents rfl .empty events
  have hw : s.1.pending.outstanding = s.2.2 :=
    s.1.pending.represents_outstanding.unique (hrecord ▸ hcount)
  refine ⟨hrecord, hcount.slot_eq, hcount.nmiLatched_iff, hcount.wellFormed.slot_of_latched,
    hcount.wellFormed.slot_ne_brk, ?_⟩
  rw [← hw]
  exact ⟨s.1.pending.front?_eq_nmi_iff, s.1.pending.front?_eq_irq_iff,
    s.1.pending.front?_eq_none_iff, s.1.step_eq_hardware_iff_serve?,
    fun hn => step_of_not_due (due?_eq_none_of_serve? hn)⟩

end Cpu

end Nmos6502
