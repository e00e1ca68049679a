import Nmos6502.Proofs.Ram
import Nmos6502.Proofs.Session
import Nmos6502.Proofs.Stepping

/-!
# Budgets do not drift

A host asks for cycles in budgets of any size and gets whole instructions. This module keeps the
account: over any history, what the runs executed and what they were asked for differ by what the
carry changed, and the carry of a machine never exceeds six cycles. So the two sums stay within six
of each other, however many runs there are and whatever is done to the machine between them. Budgets
are natural numbers, so no sum of them is too large.

## Who may touch the carry

The law is an equation for each action, and the equations of a history add up. A run balances its
own: it takes the carry that it finds off its budget and leaves its excess as the new one. Every
other action has nothing to add to either sum, so it has to leave the carry alone. One does not:
clearing the counter of cycles clears the carry too, and a history must be free of it. A run that
fails drops the carry, and what it executed is not reported.

## Main definitions

* `Action`, `Cpu.act`, `Cpu.history` — commands, and changes of the bus behind the machine's back
* `Action.requested`, `Reply.executed` — the two sides of the account

## Main results

* `Cpu.balance_run`, `Cpu.balance_act` — the equation of an action
* `Cpu.Reachable.carry_le_six` — the bound on the carry
* `Cpu.budgets_never_drift` — the account of a history
-/

universe u

namespace Nmos6502

/-! ## Actions -/

/-- What can be done to a machine: give it a command, or put its bus into another state. -/
inductive Action (β : Type u)
  | command (k : Command)
  | device (bus : β)

/-- The cycles that an action asks for: the budget, if it is a run. -/
def Action.requested {β : Type u} : Action β → Nat
  | .command (.run budget) => budget
  | _ => 0

/-- The cycles that a reply reports as executed by a run. -/
def Reply.executed : Reply → Nat
  | .ran (.ok n) => n
  | _ => 0

/-- The reply is not that of a run that failed. -/
def Reply.Succeeds : Reply → Prop
  | .ran (.error _) => False
  | _ => True

namespace Cpu

variable {β : Type u} [Bus β]

def act (c : Cpu β) : Action β → Reply × Cpu β
  | .command k => c.exec k
  | .device bus => (.done, { c with bus })

/-- Carry out actions one after the other. -/
def history (c : Cpu β) : List (Action β) → List Reply × Cpu β
  | [] => ([], c)
  | x :: rest =>
    (((c.act x).1 :: ((c.act x).2.history rest).1), ((c.act x).2.history rest).2)

theorem Reachable.act {c : Cpu β} (h : Reachable c) (x : Action β) : Reachable (c.act x).2 := by
  cases x with
  | command k => exact h.exec k
  | device bus => exact h.device bus

theorem Reachable.history {c : Cpu β} (h : Reachable c) (actions : List (Action β)) :
    Reachable (c.history actions).2 := by
  induction actions generalizing c with
  | nil => exact h
  | cons x rest ih => exact ih (h.act x)

/-! ## The carry after a run -/

/-- A run that the carry does not cover goes over what is left of its budget by six at most, and
carries that. If it fails it carries nothing. -/
theorem run_outcome {c : Cpu β} {budget : Nat} (hc : c.carry < budget) :
    (∃ n, (c.run budget).1 = .ok n ∧ n + c.carry = budget + (c.run budget).2.carry ∧
      (c.run budget).2.carry ≤ 6) ∨
    ∃ f, (c.run budget).1 = .error f ∧ (c.run budget).2.carry = 0 := by
  obtain ⟨ss, d, hsteps, hlt, hlast⟩ := c.exists_last_step (Nat.sub_pos_of_lt hc)
  rw [Nat.zero_add] at hlt
  rcases hs : d.step with ⟨r, e⟩
  have hr : d.step.1 = r := by rw [hs]
  cases r with
  | ok s =>
    have hreach := hlast s hr
    have hcost := (cycles_step_bounds hr).2
    rw [Nat.zero_add] at hreach
    rw [run_of_reached hc hsteps hlt hs hreach]
    refine .inl ⟨_, rfl, ?_, ?_⟩
    · dsimp only
      omega
    · dsimp only
      omega
  | error f =>
    rw [run_of_failed hc hsteps hlt hr]
    exact .inr ⟨f, rfl, rfl⟩

/-- **The account of a run.** -/
theorem balance_run {c : Cpu β} {budget n : Nat} (h : (c.run budget).1 = .ok n) :
    n + c.carry = budget + (c.run budget).2.carry := by
  by_cases hb : budget ≤ c.carry
  · rw [run_of_le hb] at h ⊢
    cases h
    dsimp only
    omega
  · rcases run_outcome (Nat.not_le.mp hb) with ⟨m, hm, hbalance, -⟩ | ⟨f, hf, -⟩
    · rw [hm] at h
      cases h
      exact hbalance
    · rw [hf] at h
      cases h

theorem carry_run_le_six {c : Cpu β} (h : c.carry ≤ 6) (budget : Nat) :
    (c.run budget).2.carry ≤ 6 := by
  by_cases hb : budget ≤ c.carry
  · rw [run_of_le hb]
    exact Nat.le_trans (Nat.sub_le ..) h
  · rcases run_outcome (Nat.not_le.mp hb) with ⟨n, -, -, hle⟩ | ⟨f, -, hzero⟩
    · exact hle
    · rw [hzero]
      exact Nat.zero_le 6

/-! ## The other commands -/

omit [Bus β] in
theorem carry_raise (c : Cpu β) (r : Request) : (c.raise r).carry = c.carry := by
  rw [raise_eq]

theorem carry_loadFrom (c : Cpu β) (feed : Feed) (offset : UInt16) :
    (c.loadFrom feed offset).2.carry = c.carry := by
  rw [loadFrom]
  split <;> rfl

/-- A command is a run, or it clears the counter, or it has nothing to add to the account and leaves
the carry alone. -/
theorem carry_exec (c : Cpu β) (k : Command) :
    (∃ budget, k = .run budget) ∨ k = .resetCycles ∨
      (c.exec k).2.carry = c.carry ∧ (c.exec k).1.executed = 0 ∧
        (Action.command k : Action β).requested = 0 := by
  cases k with
  | run budget => exact .inl ⟨budget, rfl⟩
  | resetCycles => exact .inr (.inl rfl)
  | step => exact .inr (.inr ⟨c.carry_step, rfl, rfl⟩)
  | loadFrom feed offset => exact .inr (.inr ⟨c.carry_loadFrom feed offset, rfl, rfl⟩)
  | raise r => exact .inr (.inr ⟨c.carry_raise r, rfl, rfl⟩)
  | _ => exact .inr (.inr ⟨rfl, rfl, rfl⟩)

/-! ## The account of a history -/

/-- **A reachable machine carries at most six cycles.** -/
theorem Reachable.carry_le_six {c : Cpu β} (h : Reachable c) : c.carry ≤ 6 := by
  induction h with
  | powerOn config journal bus => exact Nat.zero_le 6
  | @exec c h k ih =>
    rcases c.carry_exec k with ⟨budget, rfl⟩ | rfl | ⟨hcarry, -, -⟩
    · exact carry_run_le_six ih budget
    · exact Nat.zero_le 6
    · rw [hcarry]
      exact ih
  | device h bus ih => exact ih

/-- **The account of an action.** What it executes and the carry before it make up what it asks for
and the carry after it. -/
theorem balance_act (c : Cpu β) {x : Action β} (hx : x ≠ .command .resetCycles)
    (hs : (c.act x).1.Succeeds) :
    (c.act x).1.executed + c.carry = x.requested + (c.act x).2.carry := by
  cases x with
  | device bus => rfl
  | command k =>
    rw [act] at hs ⊢
    rcases c.carry_exec k with ⟨budget, rfl⟩ | rfl | ⟨hcarry, hexecuted, hrequested⟩
    · have hreply : (c.exec (.run budget)).1 = .ran (c.run budget).1 := rfl
      rw [hreply] at hs ⊢
      cases hr : (c.run budget).1 with
      | error f =>
        rw [hr] at hs
        exact hs.elim
      | ok n => exact balance_run hr
    · exact absurd rfl hx
    · rw [hexecuted, hrequested, hcarry]

/-- The accounts of the actions of a history add up. -/
theorem balance_history (c : Cpu β) {actions : List (Action β)}
    (hx : ∀ x ∈ actions, x ≠ .command .resetCycles)
    (hs : ∀ r ∈ (c.history actions).1, r.Succeeds) :
    ((c.history actions).1.map Reply.executed).sum + c.carry =
      (actions.map Action.requested).sum + (c.history actions).2.carry := by
  induction actions generalizing c with
  | nil => rfl
  | cons x rest ih =>
    obtain ⟨hxfirst, hxrest⟩ := List.forall_mem_cons.mp hx
    obtain ⟨hsfirst, hsrest⟩ := List.forall_mem_cons.mp hs
    have hfirst := c.balance_act hxfirst hsfirst
    have hrest := ih (c.act x).2 hxrest hsrest
    simp only [history, List.map_cons, List.sum_cons]
    omega

/-- **Budgets do not drift.** A reachable machine carries at most six cycles. And over any history
in which the counter of cycles is not cleared and no run fails, the cycles that the runs executed
are the sum of their budgets and what the carry grew by. So for a reachable machine the two sums are
never more than six cycles apart. -/
theorem budgets_never_drift (c : Cpu β) (actions : List (Action β)) :
    (Reachable c → c.carry ≤ 6) ∧
    ((∀ x ∈ actions, x ≠ .command .resetCycles) →
      (∀ r ∈ (c.history actions).1, r.Succeeds) →
      ((c.history actions).1.map Reply.executed).sum + c.carry =
          (actions.map Action.requested).sum + (c.history actions).2.carry ∧
        (Reachable c →
          ((c.history actions).1.map Reply.executed).sum ≤
              (actions.map Action.requested).sum + 6 ∧
            (actions.map Action.requested).sum ≤
              ((c.history actions).1.map Reply.executed).sum + 6)) := by
  refine ⟨Reachable.carry_le_six, fun hx hs => ?_⟩
  have hbalance := c.balance_history hx hs
  refine ⟨hbalance, fun hc => ?_⟩
  have hbefore : c.carry ≤ 6 := hc.carry_le_six
  have hafter : (c.history actions).2.carry ≤ 6 := (hc.history actions).carry_le_six
  omega

/-- A machine in a loop of three cycles. -/
def spinning : Cpu Ram := .powerOn {} {} (.holding [(0x0000, 0x4C)])

/-- The same machine, two rounds later and two cycles over its budget. -/
def overdrawn : Cpu Ram := { spinning.step.2.step.2 with carry := 2 }

/-- Two runs for four cycles each, with a reset between them. -/
def fourTwice : List (Action Ram) := [.command (.run 4), .command .reset, .command (.run 4)]

theorem budgets_never_drift_spinning :
    spinning.carry ≤ 6 ∧
      (spinning.history fourTwice).1.map Reply.executed = [6, 0, 3] ∧
      9 + spinning.carry = 8 + (spinning.history fourTwice).2.carry := by
  have hc : Reachable spinning := .powerOn _ _ _
  have hround : spinning.step = (.ok (.instruction 0x4C 3), spinning.step.2) := rfl
  have hlast : spinning.step.2.step = (.ok (.instruction 0x4C 3), spinning.step.2.step.2) := rfl
  have hfirst : spinning.run 4 = (.ok 6, overdrawn) :=
    run_of_reached (by decide) (.cons hround (.nil _)) (by decide) hlast (by decide)
  -- two cycles are left of the second budget, and one round is enough for them
  have hreset : overdrawn.reset.step = (.ok (.instruction 0x4C 3), overdrawn.reset.step.2) := rfl
  have hsecond : (overdrawn.reset.run 4).1 = .ok 3 := by
    rw [run_of_reached (by decide) (.nil _) (by decide) hreset (by decide)]
    rfl
  have hreplies : (spinning.history fourTwice).1 = [.ran (.ok 6), .done, .ran (.ok 3)] := by
    simp only [fourTwice, history, act, exec, hfirst, hsecond]
  have hx : ∀ x ∈ fourTwice, x ≠ .command .resetCycles := by simp [fourTwice]
  have hs : ∀ r ∈ (spinning.history fourTwice).1, r.Succeeds := by
    simp [hreplies, Reply.Succeeds]
  have haccount := ((budgets_never_drift spinning fourTwice).2 hx hs).1
  rw [hreplies] at haccount ⊢
  exact ⟨(budgets_never_drift spinning fourTwice).1 hc, rfl, haccount⟩

end Cpu

end Nmos6502
