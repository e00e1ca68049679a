import Nmos6502.Proofs.Ram
import Nmos6502.Proofs.Requests

/-!
# Every request is served once

A request can be served, it can be waiting, or it can have been turned away. This module keeps the
books on that over any history of requests and steps, with arbitrary changes of the machine in
between, as long as the machine is neither reset nor loaded. What was accepted is what was served
and what is still outstanding, so nothing is lost and nothing is served twice.

The books do not say when. That is the second half. An NMI that finds `k` others outstanding is
served by the step with number `k + 1` after it, counted from one, whatever the handlers do: each
step on the way serves one of the others, and a request that arrives meanwhile stands behind. An IRQ
waits as long as steps begin with the flag I set. The first step that begins with I clear serves it,
unless an NMI comes before that step and takes its place.

## How it is counted

`Cpu.tally` counts the events of a history that have some property at the machine they befall, and
an account is an equation between tallies. It holds of one event, by the count of `Outstanding`, and
it adds up. Whether a step served a request is taken from what the step reports.

## Main definitions

* `Cpu.afterAll`, `Cpu.tally` — a history, and the events of a kind in it
* `Cpu.serves`, `Cpu.accepts`, `Cpu.replaces` — what can become of a request
* `Cpu.HoldsBack` — a history that leaves an IRQ waiting

## Main results

* `Cpu.account_nmi`, `Cpu.account_irq` — the accounts of a history
* `Cpu.tally_serves_nmi` — while enough are outstanding, every step serves an NMI
* `Cpu.irq_of_holdsBack` — an IRQ waits
* `Cpu.requests_served_once` — what becomes of a request, and when
-/

universe u

namespace Nmos6502

/-! ## What a step leaves of the count -/

namespace Outstanding

/-- A request that arrives is accepted: an NMI if fewer than two are outstanding, an IRQ if nothing
is. -/
def accepts (w : Outstanding) : Request → Bool
  | .nmi => w.nmis < 2
  | .irq => w.nmis = 0 && !w.irq

theorem nmis_afterStep (w : Outstanding) (masked : Bool) :
    (w.afterStep masked).nmis = w.nmis - 1 := by
  obtain ⟨nmis, irq, -, -⟩ := w
  rcases nmis with _ | nmis
  · cases irq <;> cases masked <;> rfl
  · rfl

/-- An IRQ is left by a step that begins with I set, and by no other. -/
theorem irq_afterStep (w : Outstanding) (masked : Bool) :
    (w.afterStep masked).irq = (w.irq && masked) := by
  obtain ⟨nmis, irq, -, hzero⟩ := w
  rcases nmis with _ | nmis
  · cases irq <;> cases masked <;> rfl
  · cases irq
    · rfl
    · exact absurd (hzero rfl) (Nat.succ_ne_zero nmis)

theorem serve?_eq_nmi_iff (w : Outstanding) (masked : Bool) :
    (∃ rest, w.serve? masked = some (.nmi, rest)) ↔ 0 < w.nmis := by
  rw [serve?]
  constructor
  · rintro ⟨rest, h⟩
    split at h
    · assumption
    · split at h <;> simp at h
  · intro h
    exact ⟨_, if_pos h⟩

theorem serve?_eq_irq_iff (w : Outstanding) (masked : Bool) :
    (∃ rest, w.serve? masked = some (.irq, rest)) ↔ w.irq = true ∧ masked = false := by
  rw [serve?]
  constructor
  · rintro ⟨rest, h⟩
    split at h
    · simp at h
    · split at h
      · assumption
      · simp at h
  · intro h
    have hzero : ¬ 0 < w.nmis := by rw [w.nmis_eq_zero h.1]; exact Nat.lt_irrefl 0
    rw [if_neg hzero, if_pos h]
    exact ⟨_, rfl⟩

end Outstanding

/-! ## Histories without a reset -/

namespace Happening

variable {β : Type u}

/-- The event is neither a reset nor a load, which drop what is waiting. -/
def KeepsRequests : Happening β → Prop
  | .reset | .load _ _ => False
  | _ => True

/-- The event is a step. -/
def isStep : Happening β → Bool
  | .step => true
  | _ => false

end Happening

namespace Cpu

variable {β : Type u} [Bus β]

/-- The machine after a history. -/
def afterAll (c : Cpu β) (events : List (Happening β)) : Cpu β := events.foldl undergo c

/-- How many events of a history are of a kind, each at the machine that it befalls. -/
def tally (c : Cpu β) (kind : Cpu β → Happening β → Bool) : (events : List (Happening β)) → Nat
  | [] => 0
  | e :: rest => (kind c e).toNat + (c.undergo e).tally kind rest

/-- The event is a step that reports the service of a request. -/
def serves (r : Request) (c : Cpu β) : Happening β → Bool
  | .step =>
    match c.step.1 with
    | .ok (.interrupt (.hardware q) _) => q == r
    | _ => false
  | _ => false

omit [Bus β] in
/-- The event is the arrival of a request that is accepted. -/
def accepts (r : Request) (c : Cpu β) : Happening β → Bool
  | .raise q => q == r && c.pending.outstanding.accepts r
  | _ => false

omit [Bus β] in
/-- The event is the arrival of an NMI where an IRQ waits. -/
def replaces (c : Cpu β) : Happening β → Bool
  | .raise .nmi => c.pending.outstanding.irq
  | _ => false

/-! ## One event -/

theorem serves_step_iff (r : Request) (c : Cpu β) :
    serves r c .step = true ↔ c.step.1 = .ok (.interrupt (.hardware r) serviceCycles) := by
  constructor
  · intro h
    rw [serves] at h
    split at h
    · rename_i q n hs
      obtain rfl : q = r := eq_of_beq h
      obtain ⟨-, rfl⟩ := (c.step_eq_interrupt_iff _ _).mp hs
      exact hs
    · cases h
  · intro h
    rw [serves, h]
    exact beq_self_eq_true r

/-- A step serves an NMI if any is outstanding. -/
theorem serves_nmi_step (c : Cpu β) :
    serves .nmi c .step = decide (0 < c.pending.outstanding.nmis) := by
  rw [Bool.eq_iff_iff, decide_eq_true_iff, serves_step_iff, step_eq_hardware_iff_serve?,
    Outstanding.serve?_eq_nmi_iff]
  exact and_iff_left rfl

/-- A step serves an IRQ if one waits and I is clear. -/
theorem serves_irq_step (c : Cpu β) :
    serves .irq c .step = (c.pending.outstanding.irq && !c.masked) := by
  rw [Bool.eq_iff_iff, Bool.and_eq_true, Bool.not_eq_true', serves_step_iff,
    step_eq_hardware_iff_serve?, Outstanding.serve?_eq_irq_iff]
  exact and_iff_left rfl

/-- **The account of an event** for NMIs: what was outstanding or is accepted now is served, or it
is left. -/
theorem account_nmi_event (c : Cpu β) {e : Happening β} (h : e.KeepsRequests) :
    (serves .nmi c e).toNat + (c.undergo e).pending.outstanding.nmis =
      c.pending.outstanding.nmis + (accepts .nmi c e).toNat := by
  rw [outstanding_undergo]
  generalize hw : c.pending.outstanding = w
  have hle := w.nmis_le_two
  cases e with
  | reset => exact h.elim
  | load image offset => exact h.elim
  | change regs bus config => exact Nat.zero_add _
  | raise r =>
    cases r with
    | irq =>
      have hkept : (w.raise .irq).nmis = w.nmis := by
        rw [Outstanding.raise]
        split <;> rfl
      exact (Nat.zero_add _).trans hkept
    | nmi =>
      simp only [serves, accepts, hw, Outstanding.accepts, Outstanding.undergo, Outstanding.raise,
        beq_self_eq_true, Bool.true_and, Bool.toNat_false]
      by_cases hlt : w.nmis < 2
      · rw [decide_eq_true hlt, Bool.toNat_true]
        omega
      · rw [decide_eq_false hlt, Bool.toNat_false]
        omega
  | step =>
    rw [serves_nmi_step, hw, Outstanding.undergo, Outstanding.nmis_afterStep]
    by_cases hpos : 0 < w.nmis
    · rw [decide_eq_true hpos, Bool.toNat_true]
      exact Nat.add_sub_of_le hpos
    · rw [decide_eq_false hpos, Bool.toNat_false]
      exact (Nat.zero_add _).trans (by rw [Nat.eq_zero_of_not_pos hpos]; rfl)

/-- **The account of an event** for IRQs: what waited or is accepted now is served, or it gives way,
or it is left. -/
theorem account_irq_event (c : Cpu β) {e : Happening β} (h : e.KeepsRequests) :
    (serves .irq c e).toNat + (replaces c e).toNat +
        (c.undergo e).pending.outstanding.irq.toNat =
      c.pending.outstanding.irq.toNat + (accepts .irq c e).toNat := by
  rw [outstanding_undergo]
  generalize hw : c.pending.outstanding = w
  cases e with
  | reset => exact h.elim
  | load image offset => exact h.elim
  | change regs bus config => exact Nat.zero_add _
  | raise r =>
    cases r with
    | irq =>
      have hnone := w.nmis_eq_zero
      simp only [serves, replaces, accepts, hw, Outstanding.accepts, Outstanding.undergo,
        Outstanding.raise, beq_self_eq_true, Bool.true_and, Bool.toNat_false]
      cases hirq : w.irq
      · by_cases hzero : w.nmis = 0 <;> simp [hzero, hirq]
      · simp [hnone hirq]
    | nmi =>
      simp only [serves, replaces, accepts, hw]
      exact Nat.zero_add _
  | step =>
    rw [serves_irq_step, hw, Outstanding.undergo, Outstanding.irq_afterStep]
    cases w.irq <;> cases c.masked <;> rfl

/-! ## A history -/

/-- **The account of a history** for NMIs. -/
theorem account_nmi (c : Cpu β) {events : List (Happening β)}
    (h : ∀ e ∈ events, e.KeepsRequests) :
    c.tally (serves .nmi) events + (c.afterAll events).pending.outstanding.nmis =
      c.pending.outstanding.nmis + c.tally (accepts .nmi) events := by
  induction events generalizing c with
  | nil => exact Nat.zero_add _
  | cons e rest ih =>
    obtain ⟨hfirst, hrest⟩ := List.forall_mem_cons.mp h
    have hevent := c.account_nmi_event hfirst
    have hhistory := ih (c.undergo e) hrest
    have hlast : c.afterAll (e :: rest) = (c.undergo e).afterAll rest := rfl
    rw [tally, tally, hlast]
    omega

/-- **The account of a history** for IRQs. -/
theorem account_irq (c : Cpu β) {events : List (Happening β)}
    (h : ∀ e ∈ events, e.KeepsRequests) :
    c.tally (serves .irq) events + c.tally replaces events +
        (c.afterAll events).pending.outstanding.irq.toNat =
      c.pending.outstanding.irq.toNat + c.tally (accepts .irq) events := by
  induction events generalizing c with
  | nil => exact Nat.zero_add _
  | cons e rest ih =>
    obtain ⟨hfirst, hrest⟩ := List.forall_mem_cons.mp h
    have hevent := c.account_irq_event hfirst
    have hhistory := ih (c.undergo e) hrest
    have hlast : c.afterAll (e :: rest) = (c.undergo e).afterAll rest := rfl
    rw [tally, tally, tally, hlast]
    omega

/-- Where no IRQ waits, no more are served than are accepted from there on. -/
theorem tally_serves_irq_le {c : Cpu β} (hc : c.pending.outstanding.irq = false)
    {events : List (Happening β)} (h : ∀ e ∈ events, e.KeepsRequests) :
    c.tally (serves .irq) events ≤ c.tally (accepts .irq) events := by
  have haccount := c.account_irq h
  rw [hc, Bool.toNat_false] at haccount
  omega

/-! ## When an NMI is served -/

/-- Where an NMI is outstanding, an event serves one exactly if it is a step. -/
theorem serves_nmi_eq_isStep {c : Cpu β} {e : Happening β}
    (h : e = .step → 0 < c.pending.outstanding.nmis) : serves .nmi c e = e.isStep := by
  cases e with
  | step =>
    rw [serves_nmi_step, decide_eq_true (h rfl)]
    rfl
  | _ => rfl

/-- **While enough are outstanding, every step serves an NMI.** -/
theorem tally_serves_nmi {c : Cpu β} {events : List (Happening β)}
    (h : ∀ e ∈ events, e.KeepsRequests)
    (hle : events.countP Happening.isStep ≤ c.pending.outstanding.nmis) :
    c.tally (serves .nmi) events = events.countP Happening.isStep := by
  induction events generalizing c with
  | nil => rfl
  | cons e rest ih =>
    obtain ⟨hfirst, hrest⟩ := List.forall_mem_cons.mp h
    have hcount : (e :: rest).countP Happening.isStep =
        rest.countP Happening.isStep + e.isStep.toNat := by
      rw [List.countP_cons]
      cases e.isStep <;> rfl
    have hserves : serves .nmi c e = e.isStep := by
      refine serves_nmi_eq_isStep fun he => ?_
      have hone : e.isStep.toNat = 1 := by rw [he]; rfl
      omega
    -- the rest has one step less to come if this was one, and one request less
    have hevent := c.account_nmi_event hfirst
    rw [hserves] at hevent
    rw [tally, hserves, ih hrest (by omega), hcount, Nat.add_comm]

/-! ## When an IRQ is served -/

/-- The history leaves an IRQ waiting: no NMI arrives, and every step begins with I set. -/
def HoldsBack (c : Cpu β) : (events : List (Happening β)) → Prop
  | [] => True
  | e :: rest =>
    e ≠ .raise .nmi ∧ (e = .step → c.masked = true) ∧ (c.undergo e).HoldsBack rest

/-- An IRQ survives an event that leaves it waiting. -/
theorem irq_undergo {c : Cpu β} (hc : c.pending.outstanding.irq = true) {e : Happening β}
    (h : e.KeepsRequests) (hn : e ≠ .raise .nmi) (hs : e = .step → c.masked = true) :
    serves .irq c e = false ∧ (c.undergo e).pending.outstanding.irq = true := by
  rw [outstanding_undergo]
  cases e with
  | reset => exact h.elim
  | load image offset => exact h.elim
  | change regs bus config => exact ⟨rfl, hc⟩
  | raise r =>
    cases r with
    | nmi => exact absurd rfl hn
    | irq =>
      have hkept : (c.pending.outstanding.raise .irq).irq = true := by
        rw [Outstanding.raise]
        split
        · rfl
        · exact hc
      exact ⟨rfl, hkept⟩
  | step =>
    rw [serves_irq_step, Outstanding.undergo, Outstanding.irq_afterStep, hc, hs rfl]
    exact ⟨rfl, rfl⟩

/-- **An IRQ waits**, and no step serves one, as long as the history holds it back. -/
theorem irq_of_holdsBack {c : Cpu β} (hc : c.pending.outstanding.irq = true)
    {events : List (Happening β)} (h : ∀ e ∈ events, e.KeepsRequests) (hb : c.HoldsBack events) :
    c.tally (serves .irq) events = 0 ∧ (c.afterAll events).pending.outstanding.irq = true := by
  induction events generalizing c with
  | nil => exact ⟨rfl, hc⟩
  | cons e rest ih =>
    obtain ⟨hfirst, hrest⟩ := List.forall_mem_cons.mp h
    obtain ⟨hn, hs, hback⟩ := hb
    obtain ⟨hserves, hirq⟩ := irq_undergo hc hfirst hn hs
    obtain ⟨htally, hlast⟩ := ih hirq hrest hback
    rw [tally, hserves, htally]
    exact ⟨rfl, hlast⟩

/-! ## What becomes of a request -/

/-- An NMI that is accepted stands behind those that are outstanding. The steps up to as many as
those serve them, and the next step serves the request. -/
theorem step_serves_accepted {c : Cpu β} (hc : c.pending.outstanding.nmis < 2)
    {between : List (Happening β)} (h : ∀ e ∈ between, e.KeepsRequests)
    (hk : between.countP Happening.isStep = c.pending.outstanding.nmis) :
    c.tally (serves .nmi) (.raise .nmi :: between) = c.pending.outstanding.nmis ∧
      (c.afterAll (.raise .nmi :: between)).step.1 =
        .ok (.interrupt (.hardware .nmi) serviceCycles) := by
  have hraised : (c.undergo (.raise .nmi)).pending.outstanding.nmis =
      c.pending.outstanding.nmis + 1 := by
    rw [outstanding_undergo]
    exact Nat.min_eq_right hc
  have hbetween : (c.undergo (.raise .nmi)).tally (serves .nmi) between =
      c.pending.outstanding.nmis := by
    rw [tally_serves_nmi h (by omega), hk]
  have haccount := (c.undergo (.raise .nmi)).account_nmi h
  have hleft : 0 < (c.afterAll (.raise .nmi :: between)).pending.outstanding.nmis := by
    have hlast : c.afterAll (.raise .nmi :: between) =
        (c.undergo (.raise .nmi)).afterAll between := rfl
    rw [hlast]
    omega
  refine ⟨(Nat.zero_add _).trans hbetween, (serves_step_iff _ _).mp ?_⟩
  rw [serves_nmi_step, decide_eq_true hleft]

/-- A step that begins with I set serves no IRQ. -/
theorem step_ne_irq_of_masked {c : Cpu β} (hm : c.masked = true) (n : Nat) :
    c.step.1 ≠ .ok (.interrupt (.hardware .irq) n) := by
  intro hs
  obtain ⟨hserve, -⟩ := (c.step_eq_hardware_iff_serve? .irq n).mp hs
  obtain ⟨-, hunmasked⟩ := (Outstanding.serve?_eq_irq_iff _ _).mp hserve
  exact absurd hm (Bool.eq_false_iff.mp hunmasked)

/-- A step that begins with I clear serves the IRQ that waits. -/
theorem step_serves_waiting {c : Cpu β} (hirq : c.pending.outstanding.irq = true)
    (hm : c.masked = false) :
    c.step.1 = .ok (.interrupt (.hardware .irq) serviceCycles) := by
  rw [← serves_step_iff, serves_irq_step, hirq, hm]
  rfl

/-- The wait of an IRQ ends with a step that begins with I clear, or with the arrival of an NMI. -/
theorem irq_undergo_eq_false {c : Cpu β} {e : Happening β}
    (h : e = .step ∧ c.masked = false ∨ e = .raise .nmi) :
    (c.undergo e).pending.outstanding.irq = false := by
  rw [outstanding_undergo]
  rcases h with ⟨rfl, hm⟩ | rfl
  · rw [Outstanding.undergo, Outstanding.irq_afterStep, hm, Bool.and_false]
  · rfl

/-- **Every request is served once.** For every machine, and every history of requests and steps
with arbitrary changes in between:

* The NMIs that were outstanding or have been accepted are those that steps have reported as served
  and those that are still outstanding. The IRQs have been served, or have given way to an NMI, or
  still wait.
* If the history starts with an NMI that finds `k < 2` outstanding, then the first `k` steps serve
  those, and the step after them serves the request.
* A step that begins with I set serves no IRQ.
* If an IRQ waits, it goes on waiting and none is served as long as the history holds it back. A
  step that then begins with I clear serves it. After that step, or after an NMI in its place, none
  waits, and no more are served than are accepted anew. -/
theorem requests_served_once (c : Cpu β) {events : List (Happening β)}
    (h : ∀ e ∈ events, e.KeepsRequests) :
    (c.tally (serves .nmi) events + (c.afterAll events).pending.outstanding.nmis =
        c.pending.outstanding.nmis + c.tally (accepts .nmi) events ∧
      c.tally (serves .irq) events + c.tally replaces events +
          (c.afterAll events).pending.outstanding.irq.toNat =
        c.pending.outstanding.irq.toNat + c.tally (accepts .irq) events) ∧
    (∀ between rest, events = .raise .nmi :: between ++ .step :: rest →
      c.pending.outstanding.nmis < 2 →
      between.countP Happening.isStep = c.pending.outstanding.nmis →
        c.tally (serves .nmi) (.raise .nmi :: between) = c.pending.outstanding.nmis ∧
        (c.afterAll (.raise .nmi :: between)).step.1 =
          .ok (.interrupt (.hardware .nmi) serviceCycles)) ∧
    (c.masked = true → ∀ n, c.step.1 ≠ .ok (.interrupt (.hardware .irq) n)) ∧
    (∀ waiting e rest, events = waiting ++ e :: rest →
      c.pending.outstanding.irq = true → c.HoldsBack waiting →
        let d := c.afterAll waiting
        c.tally (serves .irq) waiting = 0 ∧ d.pending.outstanding.irq = true ∧
        (e = .step → d.masked = false →
          d.step.1 = .ok (.interrupt (.hardware .irq) serviceCycles)) ∧
        (e = .step ∧ d.masked = false ∨ e = .raise .nmi →
          (d.undergo e).pending.outstanding.irq = false ∧
            (d.undergo e).tally (serves .irq) rest ≤
              (d.undergo e).tally (accepts .irq) rest)) := by
  refine ⟨⟨c.account_nmi h, c.account_irq h⟩, ?_, ?_, ?_⟩
  · intro between rest he hc hk
    have hbetween : ∀ e ∈ between, e.KeepsRequests := fun e hmem => h e (by simp [he, hmem])
    exact step_serves_accepted hc hbetween hk
  · intro hm n
    exact step_ne_irq_of_masked hm n
  · intro waiting e rest he hc hb
    have hwaiting : ∀ e ∈ waiting, e.KeepsRequests := fun e hmem => h e (by simp [he, hmem])
    have hrest : ∀ e ∈ rest, e.KeepsRequests := fun e hmem => h e (by simp [he, hmem])
    obtain ⟨hnone, hirq⟩ := irq_of_holdsBack hc hwaiting hb
    refine ⟨hnone, hirq, ?_, ?_⟩
    · intro _ hm
      exact step_serves_waiting hirq hm
    · intro hend
      have hover := irq_undergo_eq_false hend
      exact ⟨hover, tally_serves_irq_le hover hrest⟩

/-- A machine at a CLI, with a request waiting. -/
def atClear (r : Request) : Cpu Ram :=
  raise (.powerOn {} {} (.holding [(0x0000, 0x58), (0x0001, 0xEA)])) r

/-- Two NMIs, of which the second is turned away, and two steps. -/
def twoMore : List (Happening Ram) := [.raise .nmi, .raise .nmi, .step, .step]

theorem requests_served_once_atClear :
    (∀ e ∈ twoMore, e.KeepsRequests) ∧
      (atClear .nmi).pending.outstanding.nmis = 1 ∧
      ((atClear .nmi).afterAll [.raise .nmi, .raise .nmi, .step]).step.1 =
        .ok (.interrupt (.hardware .nmi) 7) ∧
      (atClear .irq).pending.outstanding.irq = true ∧ (atClear .irq).masked = true ∧
      ((atClear .irq).afterAll [.step]).step.1 = .ok (.interrupt (.hardware .irq) 7) := by
  have hmore : ∀ e ∈ twoMore, e.KeepsRequests := by simp [twoMore, Happening.KeepsRequests]
  have hsteps : ∀ e ∈ ([.step, .step] : List (Happening Ram)), e.KeepsRequests := by
    simp [Happening.KeepsRequests]
  have hback : (atClear .irq).HoldsBack [.step] := ⟨nofun, fun _ => rfl, trivial⟩
  obtain ⟨-, hnmi, -, -⟩ := requests_served_once (atClear .nmi) hmore
  obtain ⟨-, -, -, hirq⟩ := requests_served_once (atClear .irq) hsteps
  refine ⟨hmore, rfl, ?_, rfl, rfl, ?_⟩
  · exact (hnmi [.raise .nmi, .step] [] rfl (by decide) rfl).2
  · exact (hirq [.step] .step [] rfl rfl hback).2.2.1 rfl rfl

end Cpu

end Nmos6502
