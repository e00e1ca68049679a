import Nmos6502.Monitor
import Nmos6502.Proofs.Budget
import Nmos6502.Proofs.Status

/-!
# Reachable machines

A machine is reachable if it was switched on, then given commands, and its bus was put into any
other state between them. What holds of every reachable machine is proved along that history. Most
commands are one step of it. A run is many, and for it the induction is made here once: a property
that survives a step, and that the carry has no part in, survives a run.

The first such property is that the status is well-formed. PLP and RTI may pull any byte from the
stack into the status, and a command may set it from any byte; neither can produce a status that is
not.

## Main definitions

* `Cpu.Invariant` — a property that survives steps
* `Cpu.Reachable` — the machines that a session can lead to

## Main results

* `Cpu.Invariant.run` — it survives runs
* `Cpu.Reachable.wellFormed` — a reachable machine has a well-formed status
-/

universe u

namespace Nmos6502

namespace Cpu

variable {β : Type u} [Bus β]

/-! ## Properties that survive steps -/

/-- A property that survives a step, and that the carry has no part in. -/
structure Invariant (P : Cpu β → Prop) : Prop where
  step : ∀ c, P c → P c.step.2
  carry : ∀ c n, P c → P { c with carry := n }

namespace Invariant

variable {P : Cpu β → Prop}

theorem runTo (hP : Invariant P) {c : Cpu β} (h : P c) (target consumed : Nat) :
    P (Cpu.runTo target consumed c).2 := by
  revert h
  refine runTo_induction target (fun k c hk h => ?_) (fun k c c' f hk hs h => ?_)
    (fun k c c' s hk hs ih h => ?_) consumed c
  · rw [runTo_of_le hk]
    exact hP.carry c _ h
  · have h' : P c' := by simpa [hs] using hP.step c h
    rw [runTo_of_fault hk hs]
    exact hP.carry c' _ h'
  · have h' : P c' := by simpa [hs] using hP.step c h
    rw [runTo_of_step hk hs]
    exact ih h'

theorem run (hP : Invariant P) {c : Cpu β} (h : P c) (budget : Nat) : P (c.run budget).2 := by
  rw [Cpu.run]
  split
  · exact hP.carry c _ h
  · exact hP.runTo h _ _

end Invariant

/-! ## The status stays well-formed -/

theorem wellFormed_execute {c : Cpu β} (h : c.regs.p.WellFormed) (o : Operation) :
    (c.execute o).regs.p.WellFormed := by
  cases o with
  | read r p => exact Status.wellFormed_reader r c.regs _
  | modify m p => exact Status.wellFormed_modifier m c.regs.p _
  | shift s => exact Status.wellFormed_shift s c.regs
  | implied i => exact Status.wellFormed_implied i h
  | stacked s =>
    cases s with
    | pla => exact Status.wellFormed_setZN _ _
    | plp | rti => exact Status.wellFormed_ofByte _
    | brk => exact Status.wellFormed_set _ _ _
    | pha | php | rts => exact h
  | write w p => exact h
  | branch b => exact h
  | jump p => exact h
  | call => exact h

theorem wellFormed_step {c : Cpu β} (h : c.regs.p.WellFormed) : c.step.2.regs.p.WellFormed := by
  refine c.step_cases (fun i rest _ => ?_) (fun o _ _ => ?_) (fun _ _ _ => h) (fun _ _ _ => h)
  · exact Status.wellFormed_set _ _ _
  · exact wellFormed_execute (c := c.trace) h o.operation

theorem invariant_wellFormed : Invariant fun c : Cpu β => c.regs.p.WellFormed where
  step _ h := wellFormed_step h
  carry _ _ h := h

omit [Bus β] in
theorem regs_raise (c : Cpu β) (r : Request) : (c.raise r).regs = c.regs := by
  rw [raise_eq]

theorem wellFormed_load (c : Cpu β) (image : List UInt8) (offset : UInt16) :
    (c.load image offset).2.regs.p.WellFormed :=
  Status.wellFormed_set _ _ _

theorem wellFormed_loadFrom {c : Cpu β} (h : c.regs.p.WellFormed) (feed : Feed) (offset : UInt16) :
    (c.loadFrom feed offset).2.regs.p.WellFormed := by
  rw [loadFrom]
  split
  · exact h
  · exact wellFormed_load c _ offset

/-- No command makes a status that is not well-formed. -/
theorem wellFormed_exec {c : Cpu β} (h : c.regs.p.WellFormed) (command : Command) :
    (c.exec command).2.regs.p.WellFormed := by
  cases command with
  | step => exact wellFormed_step h
  | run budget => exact invariant_wellFormed.run h budget
  | reset => exact Status.wellFormed_set _ _ _
  | load image offset => exact wellFormed_load c image offset
  | loadFrom feed offset => exact wellFormed_loadFrom h feed offset
  | setStatus b => exact Status.wellFormed_ofByte b
  | setFlag mask on => exact Status.wellFormed_set _ mask on
  | raise r => exact (c.regs_raise r).symm ▸ h
  | _ => exact h

/-! ## Reachable machines -/

/-- The machines that a session can lead to: switched on, then given commands, with the bus put into
any other state between them. -/
inductive Reachable : Cpu β → Prop
  | powerOn (config : Config) (journal : Journal) (bus : β) :
    Reachable (Cpu.powerOn config journal bus)
  | exec {c : Cpu β} (h : Reachable c) (command : Command) : Reachable (c.exec command).2
  | device {c : Cpu β} (h : Reachable c) (bus : β) : Reachable { c with bus }

/-- **A reachable machine has a well-formed status.** -/
theorem Reachable.wellFormed {c : Cpu β} (h : Reachable c) : c.regs.p.WellFormed := by
  induction h with
  | powerOn config journal bus => exact Status.wellFormed_set _ _ _
  | exec h command ih => exact wellFormed_exec ih command
  | device h bus ih => exact ih

end Cpu

end Nmos6502
