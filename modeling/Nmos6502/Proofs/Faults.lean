import Nmos6502.Proofs.Budget

/-!
# Faults

A step fails in one case only: nothing is due, the byte at the program counter is no documented
opcode, and the settings say to halt. Then it counts the byte, notes it in the journal, and leaves
all else as it was, a masked IRQ included. If the settings say to skip, the same byte is counted
and passed over, so no step fails and no run does.

## The other fault

The resolver, `Cpu.effectiveAddress`, has a fault of its own for the three modes that denote no
address. Most handlers resolve the mode of their row and hand this fault on. So a row can fail, and
`Cpu.dispatch_eq_error_iff` says which: a row of STA in accumulator mode does, and a row of ASL in
accumulator mode does not, because ASL looks at the mode before it resolves it. None of the 151 rows
of the table is one of those that fail. That is checked row by row, and it is why `UnresolvableMode`
does not come out of a step.

## Main definitions

* `Mnemonic.resolves`, `Opcode.Unresolvable` — the rows that cannot be executed
* `Step.Skips` — the step passed over an illegal byte

## Main results

* `Cpu.step_eq_error_iff`, `Cpu.step_of_error` — when a step fails, and what is left
* `Cpu.dispatch_eq_error_iff`, `Cpu.dispatch_of_error` — when a row fails, and what is left
* `Opcode.not_unresolvable` — no row of the table fails
* `Cpu.decodeErrors_step` — what is counted
* `Cpu.run_ok_of_skip` — no run fails while illegal bytes are passed over
* `Cpu.fault_accounting` — all of it, for every machine
-/

universe u

namespace Nmos6502

/-- The step passed over an illegal byte. -/
def Step.Skips (s : Step) : Prop := ∃ b n, s = .skipped b n

/-- Whether the handler of a mnemonic puts a mode to the resolver. Readers and shifts look for the
accumulator first. -/
def Mnemonic.resolves : Mnemonic → Mode → Bool
  | .read _, .accumulator | .modify (.shift _), .accumulator => false
  | .read _, _ | .write _, _ | .modify _, _ | .jmp, _ | .jsr, _ => true
  | .branch _, _ | .implied _, _ | .stacked _, _ => false

namespace Opcode

/-- The handler of the row resolves a mode that denotes no address. -/
def Unresolvable (o : Opcode) : Prop :=
  o.mnemonic.resolves o.mode = true ∧
    (o.mode = .implicit ∨ o.mode = .accumulator ∨ o.mode = .relative)

instance : DecidablePred Unresolvable := fun _ => inferInstanceAs (Decidable (_ ∧ _))

/-- **No row of the table asks for an address that its mode does not have.** -/
theorem not_unresolvable {o : Opcode} (h : o ∈ documented) : ¬ o.Unresolvable := by
  have all : ∀ o ∈ documented, ¬ o.Unresolvable := by decide +kernel
  exact all o h

end Opcode

namespace Cpu

variable {β : Type u} [Bus β]

/-! ## When a step fails -/

/-- **When a step fails**, and with what. -/
theorem step_eq_error_iff (c : Cpu β) (f : Fault) :
    c.step.1 = .error f ↔
      (c.due? = none ∧ c.opcode? = none ∧ c.config.decodePolicy = .halt) ∧
        f = .illegalOpcode (Bus.read c.bus c.regs.pc) c.regs.pc := by
  refine c.step_cases (fun i rest h => ?_) (fun o _ ho => ?_) (fun h ho hp => ?_)
    (fun _ _ hp => ?_)
  · simp [interrupted, h]
  · simp [performed, ho]
  · simp [h, ho, hp, eq_comm]
  · simp [hp]

/-- A step that fails counts the byte and notes it, and does nothing else. -/
theorem step_of_error {c : Cpu β} {f : Fault} (h : c.step.1 = .error f) :
    c.step.2 = c.afterFault := by
  obtain ⟨⟨hd, ho, hp⟩, -⟩ := (c.step_eq_error_iff f).mp h
  rw [step_of_not_due hd, fetch_of_halt ho hp]

/-! ## Modes without an address -/

/-- The resolver fails on the three modes that denote no address. -/
theorem effectiveAddress_eq_error_iff (c : Cpu β) (m : Mode) (f : Fault) :
    c.effectiveAddress m = .error f ↔
      (m = .implicit ∨ m = .accumulator ∨ m = .relative) ∧ f = .unresolvable m := by
  cases m with
  | memory p => simp [effectiveAddress]
  | _ => simp [effectiveAddress, eq_comm]

/-- A handler that resolves its mode fails where the resolver does. -/
theorem resolving_eq_error_iff (c : Cpu β) (mode : Mode) (handler : UInt16 → Cpu β) (f : Fault) :
    (c.resolving c.effectiveAddress mode handler).1 = .error f ↔
      (mode = .implicit ∨ mode = .accumulator ∨ mode = .relative) ∧ f = .unresolvable mode := by
  rw [← effectiveAddress_eq_error_iff c, resolving]
  cases c.effectiveAddress mode <;> simp

omit [Bus β] in
/-- A handler that resolves its mode leaves the machine alone where the resolver fails. -/
theorem resolving_of_error {resolve : Mode → Except Fault UInt16} {c : Cpu β} {mode : Mode}
    {handler : UInt16 → Cpu β} {f : Fault}
    (h : (c.resolving resolve mode handler).1 = .error f) :
    (c.resolving resolve mode handler).2 = c := by
  rw [resolving] at h ⊢
  split at h
  · cases h
  · rfl

/-- **When the dispatch of a row fails**, the rows of the table and any others. -/
theorem dispatch_eq_error_iff (c : Cpu β) (o : Opcode) (f : Fault) :
    (c.dispatch o).1 = .error f ↔
      o.Unresolvable ∧ f = .unresolvable o.mode := by
  obtain ⟨byte, mnemonic, mode, cycles⟩ := o
  rw [dispatch, Opcode.Unresolvable]
  cases mnemonic with
  | read r =>
    cases mode with
    | accumulator => simp [dispatchWith, withOperand, Mnemonic.resolves]
    | _ => simp [dispatchWith, withOperand, resolving_eq_error_iff, Mnemonic.resolves]
  | modify m =>
    cases mode with
    | accumulator => cases m <;> simp [dispatchWith, resolving_eq_error_iff, Mnemonic.resolves]
    | _ => simp [dispatchWith, resolving_eq_error_iff, Mnemonic.resolves]
  | write | jmp | jsr => simp [dispatchWith, resolving_eq_error_iff, Mnemonic.resolves]
  | branch | implied | stacked => simp [dispatchWith, Mnemonic.resolves]

/-- A dispatch that fails leaves the machine as it is: each handler resolves before it does anything
else. -/
theorem dispatch_of_error {c : Cpu β} {o : Opcode} {f : Fault} (h : (c.dispatch o).1 = .error f) :
    (c.dispatch o).2 = c := by
  obtain ⟨byte, mnemonic, mode, cycles⟩ := o
  rw [dispatch] at h ⊢
  cases mnemonic with
  | read r =>
    cases mode with
    | accumulator => cases h
    | _ => exact resolving_of_error h
  | modify m =>
    cases mode with
    | accumulator =>
      cases m with
      | shift s => cases h
      | inc | dec => exact resolving_of_error h
    | _ => exact resolving_of_error h
  | write | jmp | jsr => exact resolving_of_error h
  | branch | implied | stacked => cases h

/-- A row of the table is dispatched without a fault. -/
theorem dispatch_of_documented (c : Cpu β) {o : Opcode} (h : o ∈ Opcode.documented) :
    (c.dispatch o).1 = .ok () := by
  cases hd : (c.dispatch o).1 with
  | ok u => rfl
  | error f => exact absurd ((c.dispatch_eq_error_iff o f).mp hd).1 (Opcode.not_unresolvable h)

/-- Other rows do fail: there is no STA of the accumulator. -/
example (c : Cpu β) : (c.dispatch ⟨0x02, .write .sta, .accumulator, 2⟩).1 =
    .error (.unresolvable .accumulator) := rfl

/-- A step never fails with `UnresolvableMode`. -/
theorem step_ne_unresolvable (c : Cpu β) (m : Mode) : c.step.1 ≠ .error (.unresolvable m) := by
  intro h
  obtain ⟨-, hf⟩ := (c.step_eq_error_iff _).mp h
  cases hf

/-! ## What is counted -/

theorem not_skips_report (o : Opcode) (n : Nat) : ¬ (report o n).Skips := by
  rintro ⟨b, k, h⟩
  rw [report] at h
  split at h <;> cases h

theorem step_eq_skipped_iff (c : Cpu β) (b : UInt8) (n : Nat) :
    c.step.1 = .ok (.skipped b n) ↔
      (c.due? = none ∧ c.opcode? = none ∧ c.config.decodePolicy = .skip) ∧
        b = Bus.read c.bus c.regs.pc ∧ n = skipCycles := by
  refine c.step_cases (fun i rest h => ?_) (fun o _ ho => ?_) (fun _ _ hp => ?_)
    (fun h ho hp => ?_)
  · simp [interrupted, h]
  · have hne : (c.performed o).1 ≠ .ok (.skipped b n) := fun he =>
      not_skips_report o _ ⟨b, n, Except.ok.inj he⟩
    simp [hne, ho]
  · simp [hp]
  · simp [h, ho, hp, eq_comm]

/-- **What is counted.** A step that succeeds counts an illegal byte exactly when it passed over
one. -/
theorem decodeErrors_step {c : Cpu β} {s : Step} (h : c.step.1 = .ok s) :
    s.Skips ∧ c.step.2.decodeErrors = c.decodeErrors + 1 ∨
      ¬ s.Skips ∧ c.step.2.decodeErrors = c.decodeErrors := by
  revert h
  refine c.step_cases (fun i rest _ => ?_) (fun o _ _ => ?_) (fun _ _ _ => ?_) (fun _ _ _ => ?_)
  · rintro ⟨⟩
    exact .inr ⟨by rintro ⟨_, _, ⟨⟩⟩, rfl⟩
  · rintro ⟨⟩
    exact .inr ⟨not_skips_report o _, decodeErrors_execute _ _⟩
  · nofun
  · rintro ⟨⟩
    exact .inl ⟨⟨_, _, rfl⟩, rfl⟩

/-! ## While illegal bytes are passed over -/

theorem step_ok_of_skip {c : Cpu β} (h : c.config.decodePolicy = .skip) :
    ∃ s, c.step.1 = .ok s := by
  cases hs : c.step.1 with
  | ok s => exact ⟨s, rfl⟩
  | error f =>
    obtain ⟨⟨-, -, hp⟩, -⟩ := (c.step_eq_error_iff f).mp hs
    rw [h] at hp
    cases hp

theorem runTo_ok_of_skip {c : Cpu β} (h : c.config.decodePolicy = .skip) (target consumed : Nat) :
    ∃ n, (runTo target consumed c).1 = .ok n := by
  revert h
  refine runTo_induction target (fun k c hk _ => ?_) (fun k c c' f _ hs h => ?_)
    (fun k c c' s hk hs ih h => ?_) consumed c
  · rw [runTo_of_le hk]
    exact ⟨k, rfl⟩
  · obtain ⟨s, hok⟩ := step_ok_of_skip h
    rw [hs] at hok
    cases hok
  · have hc : c'.config = c.config := by simpa [hs] using c.config_step
    rw [runTo_of_step hk hs]
    exact ih (hc ▸ h)

/-- **No run fails while illegal bytes are passed over.** -/
theorem run_ok_of_skip {c : Cpu β} (h : c.config.decodePolicy = .skip) (budget : Nat) :
    ∃ n, (c.run budget).1 = .ok n := by
  by_cases hb : budget ≤ c.carry
  · rw [run_of_le hb]
    exact ⟨0, rfl⟩
  · rw [run_of_lt (Nat.not_le.mp hb)]
    exact runTo_ok_of_skip h _ 0

/-! ## All of it -/

/-- **The account of faults.** For every machine: when its step fails and with what, and what is
left then; which rows fail to resolve their mode, that they leave the machine as it is, that the
table has none of them, and so that no step fails with `UnresolvableMode`; which successful steps
are counted and when a byte is passed over; and that nothing fails while illegal bytes are passed
over. -/
theorem fault_accounting (c : Cpu β) :
    (∀ f, c.step.1 = .error f ↔
      (c.due? = none ∧ c.opcode? = none ∧ c.config.decodePolicy = .halt) ∧
        f = .illegalOpcode (Bus.read c.bus c.regs.pc) c.regs.pc) ∧
    (∀ f, c.step.1 = .error f → c.step.2 = { c with
      decodeErrors := c.decodeErrors + 1
      journal := c.journal.record (.illegalOpcode (Bus.read c.bus c.regs.pc) c.regs.pc) }) ∧
    (∀ o f, (c.dispatch o).1 = .error f ↔ o.Unresolvable ∧ f = .unresolvable o.mode) ∧
    (∀ o f, (c.dispatch o).1 = .error f → (c.dispatch o).2 = c) ∧
    Opcode.documented.length = 151 ∧
    (∀ o ∈ Opcode.documented,
      (c.dispatch o).1 = .ok () ∧ ∃ s, (c.perform o).1 = .ok s) ∧
    (∀ m, c.step.1 ≠ .error (.unresolvable m)) ∧
    (∀ s, c.step.1 = .ok s →
      (c.step.2.decodeErrors = c.decodeErrors + 1 ↔ s.Skips) ∧
        (c.step.2.decodeErrors = c.decodeErrors ↔ ¬ s.Skips)) ∧
    (∀ b n, c.step.1 = .ok (.skipped b n) ↔
      (c.due? = none ∧ c.opcode? = none ∧ c.config.decodePolicy = .skip) ∧
        b = Bus.read c.bus c.regs.pc ∧ n = skipCycles) ∧
    (c.config.decodePolicy = .skip →
      (∃ s, c.step.1 = .ok s) ∧ ∀ budget, ∃ n, (c.run budget).1 = .ok n) := by
  refine ⟨c.step_eq_error_iff, fun f hf => step_of_error hf, c.dispatch_eq_error_iff,
    fun o f hf => dispatch_of_error hf, rfl,
    fun o ho => ⟨dispatch_of_documented c ho, _, congrArg Prod.fst (c.perform_eq ho)⟩,
    c.step_ne_unresolvable, fun s hs => ?_, c.step_eq_skipped_iff,
    fun hp => ⟨step_ok_of_skip hp, run_ok_of_skip hp⟩⟩
  have hne : c.decodeErrors + 1 ≠ c.decodeErrors := by grind
  obtain ⟨hk, hn⟩ | ⟨hk, hn⟩ := decodeErrors_step hs
  · simp [hn, hk, hne]
  · simp [hn, hk, hne.symm]

end Cpu

end Nmos6502
