import Nmos6502.Cpu.Step

/-!
# What a step can do

Every statement about all steps splits in the same four ways: a request is served, an instruction is
executed, and a byte that is no documented opcode either stops the machine or is passed over. The
split is made once, in `Cpu.step_cases`, with everything that decides between the four, and nothing
after this module opens `Cpu.step`.

## The frame

Executing an operation changes the registers, the bus and the journal, and nothing else. That is one
equation, `Cpu.execute_eq`, and the lemmas on single fields are read off from it. Serving a request
has the same frame. So the parts of a machine that only the step itself changes are the two counters
and what is waiting, and the settings and the carry are changed by no step. The arrival of a request
is not a step, and has a frame of its own, `Cpu.raise_eq`.

## Main definitions

* `Cpu.masked`, `Cpu.due?` — the request that the next step serves, with what waits after it
* `Cpu.opcode?` — the documented opcode at the program counter
* `Cpu.interrupt?` — the interrupt that the next step serves

## Main results

* `Cpu.step_cases` — the four things a step can do
* `Cpu.execute_eq`, `Cpu.raise_eq` — the frames of an execution and of a request
* `Cpu.config_step`, `Cpu.carry_step` — the frame of a step
* `Cpu.step_eq_interrupt_iff` — what a step reports as served
* `Cpu.step_withCarry` — no step looks at the carry
-/

universe u

namespace Nmos6502

namespace Cpu

variable {β : Type u} [Bus β]

/-! ## What decides a step -/

omit [Bus β] in
/-- An IRQ has to wait: the flag I is set. -/
def masked (c : Cpu β) : Bool := c.regs.p.contains Status.interruptDisable

omit [Bus β] in
/-- The request that the next step serves, with what waits after it. -/
def due? (c : Cpu β) : Option (Interrupt × Pending) := c.pending.take? c.masked

/-- The documented opcode at the program counter. -/
def opcode? (c : Cpu β) : Option Opcode := Opcode.ofByte? (Bus.read c.bus c.regs.pc)

theorem step_of_due {c : Cpu β} {i : Interrupt} {rest : Pending} (h : c.due? = some (i, rest)) :
    c.step = c.interrupted i rest := by
  rw [due?, masked] at h
  rw [step, h]

theorem step_of_not_due {c : Cpu β} (h : c.due? = none) : c.step = c.fetch := by
  rw [due?, masked] at h
  rw [step, h]

theorem documented_of_opcode {c : Cpu β} {o : Opcode} (h : c.opcode? = some o) :
    o ∈ Opcode.documented := Opcode.mem_documented_of_ofByte? h

/-- What a step does with a row of the table. -/
def performed (c : Cpu β) (o : Opcode) : Except Fault Step × Cpu β :=
  (.ok (report o (c.cost o)), (c.trace.execute o.operation).charge (c.cost o))

/-- **No row of the table fails**: its dispatch resolves the mode that it asks for. -/
theorem perform_eq (c : Cpu β) {o : Opcode} (h : o ∈ Opcode.documented) :
    c.perform o = c.performed o := by
  rw [perform, dispatch_eq c.trace h]
  rfl

theorem fetch_of_opcode {c : Cpu β} {o : Opcode} (h : c.opcode? = some o) :
    c.fetch = c.performed o := by
  rw [← perform_eq c (documented_of_opcode h)]
  rw [opcode?] at h
  rw [fetch, h]

/-- The machine after a fault at the program counter. -/
def afterFault (c : Cpu β) : Cpu β :=
  { c with decodeErrors := c.decodeErrors + 1 }.record
    (.illegalOpcode (Bus.read c.bus c.regs.pc) c.regs.pc)

/-- The machine after the byte at the program counter is passed over. -/
def afterSkip (c : Cpu β) : Cpu β :=
  charge { c with
    decodeErrors := c.decodeErrors + 1
    journal := c.journal.record (.skippedOpcode (Bus.read c.bus c.regs.pc) c.regs.pc)
    regs := c.regs.advance 1 } skipCycles

theorem fetch_of_halt {c : Cpu β} (h : c.opcode? = none) (hp : c.config.decodePolicy = .halt) :
    c.fetch = (.error (.illegalOpcode (Bus.read c.bus c.regs.pc) c.regs.pc), c.afterFault) := by
  rw [opcode?] at h
  simp only [fetch, h, decodeError, hp, afterFault]

theorem fetch_of_skip {c : Cpu β} (h : c.opcode? = none) (hp : c.config.decodePolicy = .skip) :
    c.fetch = (.ok (.skipped (Bus.read c.bus c.regs.pc) skipCycles), c.afterSkip) := by
  rw [opcode?] at h
  simp only [fetch, h, decodeError, hp, afterSkip, record]

/-- **The four things a step can do.** What holds of a served request, of an executed instruction,
of a fault and of a skipped byte, each under the conditions that lead there, holds of the step. -/
@[elab_as_elim]
theorem step_cases {motive : Except Fault Step × Cpu β → Prop} (c : Cpu β)
    (served : ∀ i rest, c.due? = some (i, rest) → motive (c.interrupted i rest))
    (executed : ∀ o, c.due? = none → c.opcode? = some o → motive (c.performed o))
    (failed : c.due? = none → c.opcode? = none → c.config.decodePolicy = .halt →
      motive (.error (.illegalOpcode (Bus.read c.bus c.regs.pc) c.regs.pc), c.afterFault))
    (skipped : c.due? = none → c.opcode? = none → c.config.decodePolicy = .skip →
      motive (.ok (.skipped (Bus.read c.bus c.regs.pc) skipCycles), c.afterSkip)) :
    motive c.step := by
  cases hd : c.due? with
  | some due =>
    rw [step_of_due hd]
    exact served due.1 due.2 hd
  | none =>
    rw [step_of_not_due hd]
    cases ho : c.opcode? with
    | some o =>
      rw [fetch_of_opcode ho]
      exact executed o hd ho
    | none =>
      cases hp : c.config.decodePolicy with
      | halt =>
        rw [fetch_of_halt ho hp]
        exact failed hd ho hp
      | skip =>
        rw [fetch_of_skip ho hp]
        exact skipped hd ho hp

/-! ## The frame of an execution -/

/-- **The frame of an execution.** It changes the registers, the bus and the journal. -/
theorem execute_eq (c : Cpu β) (o : Operation) :
    c.execute o = { c with
      regs := (c.execute o).regs
      bus := (c.execute o).bus
      journal := (c.execute o).journal } := by
  cases o with
  | stacked s => cases s <;> rfl
  | _ => rfl

@[simp] theorem pending_execute (c : Cpu β) (o : Operation) :
    (c.execute o).pending = c.pending := by rw [execute_eq]

@[simp] theorem config_execute (c : Cpu β) (o : Operation) :
    (c.execute o).config = c.config := by rw [execute_eq]

@[simp] theorem carry_execute (c : Cpu β) (o : Operation) :
    (c.execute o).carry = c.carry := by rw [execute_eq]

@[simp] theorem decodeErrors_execute (c : Cpu β) (o : Operation) :
    (c.execute o).decodeErrors = c.decodeErrors := by rw [execute_eq]

/-- Executing an operation does not look at the journal. -/
theorem regs_execute_record (c : Cpu β) (e : Event) (o : Operation) :
    ((c.record e).execute o).regs = (c.execute o).regs := by
  cases o with
  | stacked s => cases s <;> rfl
  | _ => rfl

theorem bus_execute_record (c : Cpu β) (e : Event) (o : Operation) :
    ((c.record e).execute o).bus = (c.execute o).bus := by
  cases o with
  | stacked s => cases s <;> rfl
  | _ => rfl

@[simp] theorem regs_performed (c : Cpu β) (o : Opcode) :
    (c.performed o).2.regs = (c.execute o.operation).regs := regs_execute_record c _ _

@[simp] theorem bus_performed (c : Cpu β) (o : Opcode) :
    (c.performed o).2.bus = (c.execute o.operation).bus := bus_execute_record c _ _

/-! ## The frame of a request -/

omit [Bus β] in
/-- **The frame of a request.** Its arrival changes what is waiting and the journal. -/
theorem raise_eq (c : Cpu β) (r : Request) :
    c.raise r = { c with
      pending := c.pending.raise r
      journal := (c.raise r).journal } := by
  rw [raise]
  split <;> rfl

/-! ## The frame of a step -/

@[simp] theorem config_step (c : Cpu β) : c.step.2.config = c.config := by
  refine c.step_cases (fun i rest _ => ?_) (fun o _ _ => ?_) (fun _ _ _ => rfl) (fun _ _ _ => rfl)
  · rfl
  · exact config_execute _ _

@[simp] theorem carry_step (c : Cpu β) : c.step.2.carry = c.carry := by
  refine c.step_cases (fun i rest _ => ?_) (fun o _ _ => ?_) (fun _ _ _ => rfl) (fun _ _ _ => rfl)
  · rfl
  · exact carry_execute _ _

/-- A step that serves no request leaves what is waiting as it is. -/
theorem pending_fetch (c : Cpu β) : c.fetch.2.pending = c.pending := by
  cases ho : c.opcode? with
  | some o =>
    rw [fetch_of_opcode ho]
    exact pending_execute _ _
  | none =>
    cases hp : c.config.decodePolicy with
    | halt => rw [fetch_of_halt ho hp]; rfl
    | skip => rw [fetch_of_skip ho hp]; rfl

/-! ## What a step reports -/

theorem report_eq_interrupt_iff (o : Opcode) (k n : Nat) (i : Interrupt) :
    report o k = .interrupt i n ↔ o.mnemonic = .stacked .brk ∧ k = n ∧ .brk = i := by
  rw [report]
  by_cases h : o.mnemonic = .stacked .brk
  · simp [h, and_comm]
  · simp [h]

/-- The interrupt that the next step serves: the request that is due, or else BRK if its opcode,
0x00, is at the program counter. -/
def interrupt? (c : Cpu β) : Option Interrupt :=
  match c.due? with
  | some (i, _) => some i
  | none => if Bus.read c.bus c.regs.pc = 0x00 then some .brk else none

theorem interrupt?_of_due {c : Cpu β} {i : Interrupt} {rest : Pending}
    (h : c.due? = some (i, rest)) : c.interrupt? = some i := by
  rw [interrupt?, h]

theorem interrupt?_of_not_due {c : Cpu β} (h : c.due? = none) :
    c.interrupt? = if Bus.read c.bus c.regs.pc = 0x00 then some .brk else none := by
  rw [interrupt?, h]

/-- The byte 0x00 is BRK. -/
theorem opcode?_of_brk {c : Cpu β} (h : Bus.read c.bus c.regs.pc = 0x00) :
    c.opcode? = some ⟨0x00, .stacked .brk, .implicit, 7⟩ := by
  rw [opcode?, h]
  rfl

/-- No other byte is BRK. -/
theorem mnemonic_eq_brk_iff {c : Cpu β} {o : Opcode} (h : c.opcode? = some o) :
    o.mnemonic = .stacked .brk ↔ Bus.read c.bus c.regs.pc = 0x00 := by
  constructor
  · intro ho
    have all : ∀ o ∈ Opcode.documented, o.mnemonic = .stacked .brk → o.byte = 0x00 := by
      decide +kernel
    rw [← Opcode.byte_of_ofByte? h]
    exact all o (documented_of_opcode h) ho
  · intro hb
    rw [opcode?_of_brk hb] at h
    cases h
    rfl

theorem interrupt?_of_no_opcode {c : Cpu β} (h : c.due? = none) (ho : c.opcode? = none) :
    c.interrupt? = none := by
  have hb : Bus.read c.bus c.regs.pc ≠ 0x00 := by
    intro hb
    rw [opcode?_of_brk hb] at ho
    cases ho
  rw [interrupt?_of_not_due h, if_neg hb]

/-- **What a step serves.** It reports an interrupt exactly when that is served, with seven cycles.
-/
theorem step_eq_interrupt_iff (c : Cpu β) (i : Interrupt) (n : Nat) :
    c.step.1 = .ok (.interrupt i n) ↔ c.interrupt? = some i ∧ n = serviceCycles := by
  refine c.step_cases (fun i rest h => ?_) (fun o h ho => ?_) (fun h ho _ => ?_) (fun h ho _ => ?_)
  · rw [interrupt?_of_due h]
    simp [interrupted, eq_comm]
  · rw [interrupt?_of_not_due h]
    by_cases hb : Bus.read c.bus c.regs.pc = 0x00
    · obtain rfl : o = ⟨0x00, .stacked .brk, .implicit, 7⟩ :=
        Option.some.inj (ho ▸ opcode?_of_brk hb)
      simp [hb, performed, report_eq_interrupt_iff, cost, serviceCycles, and_comm, eq_comm]
    · simp [hb, performed, report_eq_interrupt_iff, mnemonic_eq_brk_iff ho]
  · simp [interrupt?_of_no_opcode h ho]
  · simp [interrupt?_of_no_opcode h ho]

/-- A hardware request is reported when it is due. -/
theorem interrupt?_eq_hardware_iff (c : Cpu β) (r : Request) :
    c.interrupt? = some (.hardware r) ↔ ∃ rest, c.due? = some (.hardware r, rest) := by
  cases hd : c.due? with
  | some due =>
    rw [interrupt?_of_due hd]
    constructor
    · intro hi
      exact ⟨due.2, congrArg some (Prod.ext (Option.some.inj hi) rfl)⟩
    · rintro ⟨rest, h⟩
      rw [Option.some.inj h]
  | none =>
    rw [interrupt?_of_not_due hd]
    split <;> simp

/-! ## The carry -/

theorem execute_withCarry (c : Cpu β) (n : Nat) (o : Operation) :
    { c with carry := n }.execute o = { c.execute o with carry := n } := by
  cases o with
  | stacked s => cases s <;> rfl
  | _ => rfl

/-- **No step looks at the carry.** -/
theorem step_withCarry (c : Cpu β) (n : Nat) :
    { c with carry := n }.step = (c.step.1, { c.step.2 with carry := n }) := by
  refine c.step_cases (fun i rest h => ?_) (fun o h ho => ?_) (fun h ho hp => ?_)
    (fun h ho hp => ?_)
  · rw [step_of_due (c := { c with carry := n }) h]
    rfl
  · rw [step_of_not_due (c := { c with carry := n }) h,
      fetch_of_opcode (c := { c with carry := n }) ho]
    refine Prod.ext rfl ?_
    exact congrArg (charge · (c.cost o)) (execute_withCarry c.trace n o.operation)
  · rw [step_of_not_due (c := { c with carry := n }) h,
      fetch_of_halt (c := { c with carry := n }) ho hp]
    rfl
  · rw [step_of_not_due (c := { c with carry := n }) h,
      fetch_of_skip (c := { c with carry := n }) ho hp]
    rfl

end Cpu

end Nmos6502
