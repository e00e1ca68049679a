import Nmos6502.Monitor
import Nmos6502.Proofs.Budget

/-!
# Machines on a view of their device

A view of a device is another device that shows the same bytes, and that follows its writes and its
block transfers. A processor does nothing else with its bus. So a machine on the view does at every
command what the machine on the device does: it gives the same reply, and it ends on the view of
the device on which the other machine ends.

That is said of each operation in the order in which the machine is built from them, as an equation
between the machine on the view and the view of the machine. A run is the one place where an
induction is needed, and another for the lists: a listing, a session.

## Main definitions

* `Bus.IsView` — a map of devices that keeps reads and follows writes
* `Cpu.through` — the machine on a view of its device

## Main results

* `Cpu.execute_through`, `Cpu.step_through`, `Cpu.run_through` — executing, on a view
* `Cpu.exec_through`, `Cpu.session_through` — commands and sessions, on a view
-/

universe u v

namespace Nmos6502

/-! ## Views -/

/-- A map of devices that keeps what is read, and follows writes and block transfers. -/
structure Bus.IsView {β : Type u} {γ : Type v} [Bus β] [Bus γ] (view : β → γ) : Prop where
  read : ∀ bus a, Bus.read (view bus) a = Bus.read bus a
  write : ∀ bus a b, Bus.write (view bus) a b = view (Bus.write bus a b)
  transfer : ∀ bus a block, Bus.transfer (view bus) a block = view (Bus.transfer bus a block)

variable {β : Type u} {γ : Type v} [Bus β] [Bus γ] {view : β → γ}

namespace Bus.IsView

theorem readWord (h : IsView view) (bus : β) (a : UInt16) :
    Bus.readWord (view bus) a = Bus.readWord bus a := by
  rw [Bus.readWord, Bus.readWord, h.read, h.read]

theorem readWordInPage (h : IsView view) (bus : β) (a : UInt16) :
    Bus.readWordInPage (view bus) a = Bus.readWordInPage bus a := by
  rw [Bus.readWordInPage, Bus.readWordInPage, h.read, h.read]

theorem writeWord (h : IsView view) (bus : β) (a w : UInt16) :
    Bus.writeWord (view bus) a w = view (Bus.writeWord bus a w) := by
  rw [Bus.writeWord, Bus.writeWord, h.write, h.write]

theorem load (h : IsView view) (bus : β) (a : UInt16) (block : List UInt8) :
    Bus.load (view bus) a block = (view (Bus.load bus a block).1, (Bus.load bus a block).2) := by
  rw [Bus.load, Bus.load, h.transfer]

theorem dump (h : IsView view) (bus : β) (a : UInt16) (count : Nat) :
    Bus.dump (view bus) a count = Bus.dump bus a count := by
  induction count generalizing a with
  | zero => rfl
  | succ count ih => rw [Bus.dump, Bus.dump, h.read, ih]

theorem decodeAt (h : IsView view) (bus : β) (a : UInt16) :
    Line.decodeAt (view bus) a = Line.decodeAt bus a := by
  have hoperand : ∀ a count, Line.operandAt (view bus) a count = Line.operandAt bus a count := by
    intro a count
    rcases count with _ | _ | _ | count
    · rfl
    · rw [Line.operandAt, Line.operandAt, h.read]
    · exact h.readWord bus a
    · rfl
  rw [Line.decodeAt, Line.decodeAt, h.read]
  simp only [hoperand]

theorem list (h : IsView view) (bus : β) (a : UInt16) (count : Nat) :
    Line.list (view bus) a count = Line.list bus a count := by
  induction count generalizing a with
  | zero => rfl
  | succ count ih => rw [Line.list, Line.list, h.decodeAt, ih]

end Bus.IsView

namespace Cpu

/-- The machine on a view of its device. -/
def through (c : Cpu β) (view : β → γ) : Cpu γ where
  regs := c.regs
  cycles := c.cycles
  carry := c.carry
  decodeErrors := c.decodeErrors
  pending := c.pending
  config := c.config
  journal := c.journal
  bus := view c.bus

section Fields

variable (c : Cpu β) (view : β → γ)

omit [Bus β] [Bus γ]

@[simp] theorem regs_through : (c.through view).regs = c.regs := rfl

@[simp] theorem carry_through : (c.through view).carry = c.carry := rfl

@[simp] theorem pending_through : (c.through view).pending = c.pending := rfl

@[simp] theorem config_through : (c.through view).config = c.config := rfl

@[simp] theorem bus_through : (c.through view).bus = view c.bus := rfl

end Fields

variable (h : Bus.IsView view)
include h

/-! ## Addresses and the stack -/

theorem address_through (c : Cpu β) (p : Place) : (c.through view).address p = c.address p := by
  cases p with
  | immediate => rfl
  | _ => simp only [address, through, h.read, h.readWord, h.readWordInPage]

theorem effectiveAddress_through (c : Cpu β) (m : Mode) :
    (c.through view).effectiveAddress m = c.effectiveAddress m := by
  cases m with
  | memory p => exact congrArg Except.ok (c.address_through h p)
  | _ => rfl

theorem push_through (c : Cpu β) (b : UInt8) :
    (c.through view).push b = (c.push b).through view := by
  simp only [push, through, stackAddress, h.write]

theorem pull_through (c : Cpu β) :
    (c.through view).pull = (c.pull.1, c.pull.2.through view) := by
  simp only [pull, through, stackAddress, h.read]

theorem pushWord_through (c : Cpu β) (w : UInt16) :
    (c.through view).pushWord w = (c.pushWord w).through view := by
  rw [pushWord, pushWord, push_through h, push_through h]

theorem pullWord_through (c : Cpu β) :
    (c.through view).pullWord = (c.pullWord.1, c.pullWord.2.through view) := by
  simp only [pullWord, pull_through h]

theorem reset_through (c : Cpu β) : (c.through view).reset = c.reset.through view := by
  have hword := h.readWord c.bus c.config.resetVector
  simp only [reset, through, record, hword]

theorem powerOn_through (config : Config) (journal : Journal) (bus : β) :
    powerOn config journal (view bus) = (powerOn config journal bus).through view := by
  rw [powerOn, powerOn, ← reset_through h]
  rfl

omit h [Bus β] [Bus γ] in
theorem raise_through (c : Cpu β) (r : Request) :
    (c.through view).raise r = (c.raise r).through view := by
  rw [raise, raise, pending_through]
  split <;> rfl

/-! ## Executing -/

theorem serve_through (c : Cpu β) (i : Interrupt) :
    (c.through view).serve i = (c.serve i).through view := by
  have hback : (c.through view).returnAddress i = c.returnAddress i := by cases i <;> rfl
  simp only [serve, hback, regs_through, pushWord_through h, push_through h, config_through,
    bus_through, h.readWord]
  rfl

theorem branchTarget_through (c : Cpu β) (next : UInt16) :
    (c.through view).branchTarget next = c.branchTarget next := by
  rw [branchTarget, branchTarget, regs_through, bus_through, h.read]

theorem executeStacked_through (c : Cpu β) (s : Stacked) (n : Nat) :
    (c.through view).executeStacked s n = (c.executeStacked s n).through view := by
  cases s with
  | pha | php =>
    simp only [executeStacked, regs_through, push_through h]
    rfl
  | pla | plp =>
    simp only [executeStacked, pull_through h]
    rfl
  | rts =>
    simp only [executeStacked, pullWord_through h]
    rfl
  | rti =>
    simp only [executeStacked, pull_through h, pullWord_through h]
    rfl
  | brk => exact c.serve_through h .brk

theorem execute_through (c : Cpu β) (o : Operation) :
    (c.through view).execute o = (c.execute o).through view := by
  cases o with
  | read r p =>
    rw [execute_read, execute_read, address_through h, bus_through, h.read]
    rfl
  | write w p =>
    simp only [execute_write, address_through h, storeAt, regs_through, bus_through, h.write]
    rfl
  | modify m p =>
    simp only [execute_modify, address_through h, modifyAt, regs_through, bus_through, h.read,
      h.write]
    rfl
  | branch b =>
    simp only [execute_branch, branchOn, branchTarget_through h, regs_through]
    rfl
  | jump p =>
    rw [execute_jump, execute_jump, address_through h]
    rfl
  | call =>
    simp only [execute_call, address_through h, callTo, regs_through, pushWord_through h]
    rfl
  | shift s => rfl
  | implied i => rfl
  | stacked s => exact c.executeStacked_through h s 1

theorem cost_through (c : Cpu β) (o : Opcode) : (c.through view).cost o = c.cost o := by
  simp only [cost, branchTarget_through h, regs_through]

theorem trace_through (c : Cpu β) : (c.through view).trace = c.trace.through view := by
  simp only [trace, bus_through, regs_through, h.decodeAt]
  rfl

theorem performed_through (c : Cpu β) (o : Opcode) :
    (c.through view).performed o = ((c.performed o).1, (c.performed o).2.through view) := by
  rw [performed, performed, cost_through h, trace_through h, execute_through h]
  rfl

/-- **A step, on a view.** -/
theorem step_through (c : Cpu β) :
    (c.through view).step = (c.step.1, c.step.2.through view) := by
  have hread : Bus.read (view c.bus) c.regs.pc = Bus.read c.bus c.regs.pc := h.read _ _
  have hopcode : (c.through view).opcode? = c.opcode? := congrArg Opcode.ofByte? hread
  refine c.step_cases ?_ ?_ ?_ ?_
  · intro i rest hd
    rw [step_of_due (c := c.through view) hd]
    refine Prod.ext rfl ?_
    exact congrArg (charge · serviceCycles) (serve_through h { c with pending := rest } i)
  · intro o hd ho
    rw [step_of_not_due (c := c.through view) hd, fetch_of_opcode (hopcode.trans ho)]
    exact c.performed_through h o
  · intro hd ho hp
    rw [step_of_not_due (c := c.through view) hd,
      fetch_of_halt (c := c.through view) (hopcode.trans ho) hp]
    simp only [afterFault, regs_through, bus_through, hread]
    rfl
  · intro hd ho hp
    rw [step_of_not_due (c := c.through view) hd,
      fetch_of_skip (c := c.through view) (hopcode.trans ho) hp]
    simp only [afterSkip, regs_through, bus_through, hread]
    rfl

/-! ## Many steps -/

theorem runTo_through (target consumed : Nat) (c : Cpu β) :
    runTo target consumed (c.through view) =
      ((runTo target consumed c).1, (runTo target consumed c).2.through view) := by
  refine runTo_induction target ?_ ?_ ?_ consumed c
  · intro k c hk
    rw [runTo_of_le hk, runTo_of_le hk]
    rfl
  · intro k c c' f hk hs
    have hs' : (c.through view).step = (.error f, c'.through view) := by rw [step_through h, hs]
    rw [runTo_of_fault hk hs', runTo_of_fault hk hs]
    rfl
  · intro k c c' s hk hs ih
    have hs' : (c.through view).step = (.ok s, c'.through view) := by rw [step_through h, hs]
    rw [runTo_of_step hk hs', runTo_of_step hk hs, ih]

/-- **A run, on a view.** -/
theorem run_through (c : Cpu β) (budget : Nat) :
    (c.through view).run budget = ((c.run budget).1, (c.run budget).2.through view) := by
  rw [run, run, carry_through]
  split
  · rfl
  · exact runTo_through h _ 0 c

/-! ## Loading -/

theorem load_through (c : Cpu β) (image : List UInt8) (offset : UInt16) :
    (c.through view).load image offset =
      ((c.load image offset).1, (c.load image offset).2.through view) := by
  have hreset : { c.through view with bus := view (Bus.load c.bus offset image).1 }.reset =
      { c with bus := (Bus.load c.bus offset image).1 }.reset.through view :=
    reset_through h { c with bus := (Bus.load c.bus offset image).1 }
  rw [load, load, bus_through, h.load]
  dsimp only
  rw [hreset]
  rfl

theorem loadFrom_through (c : Cpu β) (feed : Feed) (offset : UInt16) :
    (c.through view).loadFrom feed offset =
      ((c.loadFrom feed offset).1, (c.loadFrom feed offset).2.through view) := by
  rw [loadFrom, loadFrom]
  split
  · rfl
  · rw [load_through h]

/-! ## Commands -/

/-- **A command, on a view.** -/
theorem exec_through (c : Cpu β) (command : Command) :
    (c.through view).exec command =
      ((c.exec command).1, (c.exec command).2.through view) := by
  cases command with
  | step => simp only [exec, step_through h]
  | run budget => simp only [exec, run_through h]
  | reset => simp only [exec, reset_through h]
  | load image offset => simp only [exec, load_through h]
  | loadFrom feed offset => simp only [exec, loadFrom_through h]
  | push b => simp only [exec, push_through h]
  | pushWord w => simp only [exec, pushWord_through h]
  | pull => simp only [exec, pull_through h]
  | pullWord => simp only [exec, pullWord_through h]
  | peek a => simp only [exec, bus_through, h.read]
  | peekWord a => simp only [exec, bus_through, h.readWord]
  | poke a b =>
    simp only [exec, bus_through, h.write]
    rfl
  | pokeWord a w =>
    simp only [exec, bus_through, h.writeWord]
    rfl
  | transfer a block =>
    simp only [exec, bus_through, h.load]
    rfl
  | setHandler a =>
    simp only [exec, bus_through, config_through, h.writeWord]
    rfl
  | dump a count => simp only [exec, bus_through, h.dump]
  | list a count => simp only [exec, bus_through, h.list]
  | raise r => simp only [exec, raise_through]
  | effectiveAddress m => simp only [exec, effectiveAddress_through h]
  | _ => rfl

/-- **A session, on a view.** -/
theorem session_through (c : Cpu β) (commands : List Command) :
    (c.through view).session commands =
      ((c.session commands).1, (c.session commands).2.through view) := by
  induction commands generalizing c with
  | nil => rfl
  | cons command rest ih => simp only [session, exec_through h, ih]

end Cpu

end Nmos6502
