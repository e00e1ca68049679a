import Nmos6502.Proofs.Ledger

/-!
# The journal is written and never read

A machine enters what it does into its journal, and the threshold of the journal decides what is
kept. This module shows that nothing comes back from there. Whatever is done to a machine, and
however it was built, a lower threshold leaves the same replies and the same machine; and the
messages that are left are those of the higher threshold, without the levels that are shut out, each
with the action that it came with.

## Retellings

The proof is not about thresholds. A *retelling* is any map of journals that follows every new
entry, and a machine with a retold journal does at every action what the machine itself does. That
is said once for each operation, in the order in which the machine is built from them, and it is
used twice. To lower the threshold of a journal, and drop the entries that it shuts out, is one
retelling. To put a journal behind entries that were there before is another, and it is why the
messages of an action can be told from a journal that was cleared for it.

## Main definitions

* `Journal.IsRetelling`, `Cpu.retold` — a map of journals that follows entries, and a machine with
  its journal retold
* `Journal.lowered`, `Journal.behind` — the two retellings
* `Journal.messages` — what is written: levels and texts
* `Cpu.chronicle` — the reply and the messages of each action of a history
* `Cpu.TellsLess` — two machines that differ in nothing but the messages that do not pass

## Main results

* `Cpu.step_retold`, `Cpu.run_retold`, `Cpu.history_retold` — steps, runs and histories, retold
* `Cpu.messages_act`, `Cpu.messages_history` — messages follow those from before
* `Cpu.logging_never_influences` — two thresholds, from the building of a machine on
-/

universe u

namespace Nmos6502

/-! ## Retellings -/

/-- A map of journals that follows every new entry. -/
def Journal.IsRetelling (tell : Journal → Journal) : Prop :=
  ∀ j e, tell (j.record e) = (tell j).record e

namespace Cpu

variable {β : Type u}

/-- The machine with its journal retold. -/
def retold (c : Cpu β) (tell : Journal → Journal) : Cpu β := { c with journal := tell c.journal }

@[simp] theorem regs_retold (c : Cpu β) (tell : Journal → Journal) :
    (c.retold tell).regs = c.regs := rfl

@[simp] theorem journal_retold (c : Cpu β) (tell : Journal → Journal) :
    (c.retold tell).journal = tell c.journal := rfl

/-- A machine that differs from another in its journal alone, which is the other's retold. -/
theorem eq_retold {c d : Cpu β} {tell : Journal → Journal}
    (hrest : { d with journal := {} } = { c with journal := {} })
    (hjournal : d.journal = tell c.journal) : d = c.retold tell := by
  cases c
  cases d
  cases hrest
  exact congrArg (Cpu.mk _ _ _ _ _ _ · _) hjournal

variable {tell : Journal → Journal} (h : Journal.IsRetelling tell)
include h

theorem record_retold (c : Cpu β) (e : Event) :
    (c.retold tell).record e = (c.record e).retold tell :=
  eq_retold rfl (h _ _).symm

theorem raise_retold (c : Cpu β) (r : Request) :
    (c.retold tell).raise r = (c.raise r).retold tell := by
  have hpending : (c.retold tell).pending = c.pending := rfl
  rw [raise, raise, hpending]
  cases c.pending.controller.collision? (.hardware r) with
  | none => rfl
  | some collision => exact record_retold h { c with pending := c.pending.raise r } _

variable [Bus β]

theorem reset_retold (c : Cpu β) : (c.retold tell).reset = c.reset.retold tell :=
  eq_retold rfl (h _ _).symm

theorem powerOn_retold (config : Config) (journal : Journal) (bus : β) :
    powerOn config (tell journal) bus = (powerOn config journal bus).retold tell :=
  eq_retold rfl (h _ _).symm

/-! ## Executing -/

theorem serve_retold (c : Cpu β) (i : Interrupt) :
    (c.retold tell).serve i = (c.serve i).retold tell :=
  eq_retold rfl (h _ _).symm

/-- Of the operations, only BRK makes an entry of its own. -/
theorem execute_retold (c : Cpu β) (o : Operation) :
    (c.retold tell).execute o = (c.execute o).retold tell := by
  cases o with
  | stacked s =>
    cases s with
    | brk => exact serve_retold h c .brk
    | _ => rfl
  | _ => rfl

theorem performed_retold (c : Cpu β) (o : Opcode) :
    (c.retold tell).performed o = ((c.performed o).1, (c.performed o).2.retold tell) := by
  have hentry : (c.retold tell).trace = c.trace.retold tell := record_retold h c _
  refine Prod.ext rfl ?_
  exact congrArg (charge · (c.cost o))
    ((congrArg (execute · o.operation) hentry).trans (execute_retold h _ o.operation))

/-- **A step, retold.** -/
theorem step_retold (c : Cpu β) :
    (c.retold tell).step = (c.step.1, c.step.2.retold tell) := by
  refine c.step_cases ?_ ?_ ?_ ?_
  · intro i rest hd
    rw [step_of_due (c := c.retold tell) hd]
    refine Prod.ext rfl ?_
    exact congrArg (charge · serviceCycles) (serve_retold h { c with pending := rest } i)
  · intro o hd ho
    rw [step_of_not_due (c := c.retold tell) hd, fetch_of_opcode (c := c.retold tell) ho]
    exact performed_retold h c o
  · intro hd ho hp
    rw [step_of_not_due (c := c.retold tell) hd, fetch_of_halt (c := c.retold tell) ho hp]
    exact Prod.ext rfl (eq_retold rfl (h _ _).symm)
  · intro hd ho hp
    rw [step_of_not_due (c := c.retold tell) hd, fetch_of_skip (c := c.retold tell) ho hp]
    exact Prod.ext rfl (eq_retold rfl (h _ _).symm)

/-! ## Many steps -/

theorem runTo_retold (target consumed : Nat) (c : Cpu β) :
    runTo target consumed (c.retold tell) =
      ((runTo target consumed c).1, (runTo target consumed c).2.retold tell) := by
  refine runTo_induction target ?_ ?_ ?_ consumed c
  · intro k c hk
    rw [runTo_of_le hk, runTo_of_le hk]
    rfl
  · intro k c c' f hk hs
    have hs' : (c.retold tell).step = (.error f, c'.retold tell) := by rw [step_retold h, hs]
    rw [runTo_of_fault hk hs', runTo_of_fault hk hs]
    rfl
  · intro k c c' s hk hs ih
    have hs' : (c.retold tell).step = (.ok s, c'.retold tell) := by rw [step_retold h, hs]
    rw [runTo_of_step hk hs', runTo_of_step hk hs, ih]

/-- **A run, retold.** -/
theorem run_retold (c : Cpu β) (budget : Nat) :
    (c.retold tell).run budget = ((c.run budget).1, (c.run budget).2.retold tell) := by
  have hcarry : (c.retold tell).carry = c.carry := rfl
  rw [run, run, hcarry]
  split
  · rfl
  · exact runTo_retold h _ 0 c

/-! ## Loading and building -/

theorem load_retold (c : Cpu β) (image : List UInt8) (offset : UInt16) :
    (c.retold tell).load image offset =
      ((c.load image offset).1, (c.load image offset).2.retold tell) := by
  refine Prod.ext rfl (eq_retold rfl ?_)
  exact (congrArg (Journal.record · _) (h _ _).symm).trans (h _ _).symm

theorem loadFrom_retold (c : Cpu β) (feed : Feed) (offset : UInt16) :
    (c.retold tell).loadFrom feed offset =
      ((c.loadFrom feed offset).1, (c.loadFrom feed offset).2.retold tell) := by
  rw [loadFrom, loadFrom]
  split
  · rfl
  · rw [load_retold h]

/-- A machine is built on a memory of a given size, or not, whatever its journal is. -/
theorem withMemorySize_retold (size : Nat) (config : Config) (journal : Journal) :
    withMemorySize size config (tell journal) =
      (withMemorySize size config journal).map (·.retold tell) := by
  rw [withMemorySize, withMemorySize, Memory.install, Memory.install]
  cases Memory.ofSize size with
  | error e => rfl
  | ok m =>
    -- the only entry before the reset is the one about a size that was cut
    have hclamped : (if 65536 < size then (tell journal).record (.sizeClamped size)
          else tell journal) =
        tell (if 65536 < size then journal.record (.sizeClamped size) else journal) := by
      rw [← h]
      split <;> rfl
    exact congrArg Except.ok
      ((congrArg (powerOn config · m) hclamped).trans (powerOn_retold h config _ m))

/-! ## Histories -/

/-- **A command, retold.** -/
theorem exec_retold (c : Cpu β) (command : Command) :
    (c.retold tell).exec command = ((c.exec command).1, (c.exec command).2.retold tell) := by
  cases command with
  | step => simp only [exec, step_retold h]
  | run budget => simp only [exec, run_retold h]
  | reset => simp only [exec, reset_retold h]
  | load image offset => simp only [exec, load_retold h]
  | loadFrom feed offset => simp only [exec, loadFrom_retold h]
  | raise r => simp only [exec, raise_retold h]
  | effectiveAddress m => cases m <;> rfl
  | _ => rfl

theorem act_retold (c : Cpu β) (x : Action β) :
    (c.retold tell).act x = ((c.act x).1, (c.act x).2.retold tell) := by
  cases x with
  | command k => exact exec_retold h c k
  | device bus => rfl

/-- **A history, retold.** -/
theorem history_retold (c : Cpu β) (actions : List (Action β)) :
    (c.retold tell).history actions =
      ((c.history actions).1, (c.history actions).2.retold tell) := by
  induction actions generalizing c with
  | nil => rfl
  | cons x rest ih => simp only [history, act_retold h, ih]

end Cpu

/-! ## Thresholds -/

/-- Whether messages of a level pass a threshold. -/
def Level.passes (l : Level) (threshold : Option Level) : Bool :=
  (⟨threshold, []⟩ : Journal).keeps l

/-- The lower of two thresholds. The lowest is `none`, which lets nothing pass. -/
def Level.lower : Option Level → Option Level → Option Level
  | some s, some t => if s.rank ≤ t.rank then some s else some t
  | _, _ => none

/-- The lower of two thresholds lets pass what both of them do. -/
theorem Level.passes_lower (l : Level) (s t : Option Level) :
    l.passes (lower s t) = (l.passes s && l.passes t) := by
  rcases s with _ | s <;> rcases t with _ | t
  · rfl
  · rfl
  · exact (Bool.and_false _).symm
  · cases l <;> cases s <;> cases t <;> rfl

/-- The lower of two thresholds is the one that lets pass nothing but what the other does. -/
theorem Level.lower_eq_left {s t : Option Level}
    (h : ∀ l : Level, l.passes s = true → l.passes t = true) : lower s t = s := by
  rcases s with _ | s <;> rcases t with _ | t
  · rfl
  · rfl
  · exact absurd (h s (decide_eq_true (Nat.le_refl _))) Bool.false_ne_true
  · have hrank : s.rank ≤ t.rank := of_decide_eq_true (h s (decide_eq_true (Nat.le_refl _)))
    exact if_pos hrank

namespace Journal

/-- The journal with a threshold that is lower, if the given one is, and without the entries that
this shuts out. -/
def lowered (t : Option Level) (j : Journal) : Journal where
  threshold := Level.lower t j.threshold
  entries := j.entries.filter fun e => e.level.passes t

/-- The journal behind entries that were made before. -/
def behind (old : List Event) (j : Journal) : Journal := { j with entries := j.entries ++ old }

theorem isRetelling_lowered (t : Option Level) : IsRetelling (lowered t) := by
  intro j e
  have hkeeps : (j.lowered t).keeps e.level = (e.level.passes t && j.keeps e.level) :=
    e.level.passes_lower t j.threshold
  rw [record, record, hkeeps]
  cases hj : j.keeps e.level with
  | false => simp
  | true => cases ht : e.level.passes t <;> simp [lowered, ht]

theorem isRetelling_behind (old : List Event) : IsRetelling (behind old) := by
  intro j e
  have hkeeps : (j.behind old).keeps e.level = j.keeps e.level := rfl
  rw [record, record, hkeeps]
  split <;> rfl

/-! ## Messages -/

/-- What is written of the entries: their levels and texts, in the order in which they were made. -/
def messages (j : Journal) : List (Level × String) := j.toList.map fun e => (e.level, e.text)

theorem messages_lowered (t : Option Level) (j : Journal) :
    (j.lowered t).messages = j.messages.filter fun m => m.1.passes t := by
  simp only [messages, toList, lowered, ← List.filter_reverse, List.filter_map]
  rfl

theorem messages_behind (old : List Event) (j : Journal) :
    (j.behind old).messages = (⟨j.threshold, old⟩ : Journal).messages ++ j.messages := by
  simp only [messages, toList, behind, List.reverse_append, List.map_append]

end Journal

namespace Cpu

variable {β : Type u} [Bus β]

/-- The messages of an action, told from a journal that was cleared for it. -/
def told (c : Cpu β) (x : Action β) : List (Level × String) :=
  ({ c with journal := c.journal.cleared }.act x).2.journal.messages

/-- **The messages of an action follow those from before it.** -/
theorem messages_act (c : Cpu β) (x : Action β) :
    (c.act x).2.journal.messages = c.journal.messages ++ c.told x := by
  have hbehind : c = retold { c with journal := c.journal.cleared } (.behind c.journal.entries) :=
    rfl
  have hact := act_retold (Journal.isRetelling_behind c.journal.entries)
    { c with journal := c.journal.cleared } x
  rw [← hbehind] at hact
  rw [hact, journal_retold, Journal.messages_behind]
  rfl

/-- The reply of each action of a history, with its messages. -/
def chronicle (c : Cpu β) : List (Action β) → List (Reply × List (Level × String))
  | [] => []
  | x :: rest => ((c.act x).1, c.told x) :: (c.act x).2.chronicle rest

theorem map_fst_chronicle (c : Cpu β) (actions : List (Action β)) :
    (c.chronicle actions).map Prod.fst = (c.history actions).1 := by
  induction actions generalizing c with
  | nil => rfl
  | cons x rest ih => rw [chronicle, history, List.map_cons, ih]

/-- The messages of a history are those of its actions, behind those from before it. -/
theorem messages_history (c : Cpu β) (actions : List (Action β)) :
    (c.history actions).2.journal.messages =
      c.journal.messages ++ ((c.chronicle actions).map Prod.snd).flatten := by
  induction actions generalizing c with
  | nil => exact (List.append_nil _).symm
  | cons x rest ih =>
    rw [history, ih, messages_act, chronicle, List.map_cons, List.flatten_cons, List.append_assoc]

/-! ## Two thresholds -/

/-- A row of a chronicle with the messages that pass a threshold. -/
def passing (t : Option Level) (row : Reply × List (Level × String)) :
    Reply × List (Level × String) :=
  (row.1, row.2.filter fun m => m.1.passes t)

theorem told_lowered (c : Cpu β) (t : Option Level) (x : Action β) :
    (c.retold (.lowered t)).told x = (c.told x).filter fun m => m.1.passes t := by
  have hcleared : { c.retold (.lowered t) with journal := (c.journal.lowered t).cleared } =
      retold { c with journal := c.journal.cleared } (.lowered t) := rfl
  rw [told, journal_retold, hcleared, act_retold (Journal.isRetelling_lowered t), journal_retold,
    Journal.messages_lowered]
  rfl

theorem chronicle_lowered (c : Cpu β) (t : Option Level) (actions : List (Action β)) :
    (c.retold (.lowered t)).chronicle actions = (c.chronicle actions).map (passing t) := by
  induction actions generalizing c with
  | nil => rfl
  | cons x rest ih =>
    rw [chronicle, chronicle, List.map_cons, told_lowered,
      act_retold (Journal.isRetelling_lowered t), ih]
    rfl

/-- The machine `c` does under a history what `d` does, and writes what `d` writes with the messages
left out that do not pass a threshold: at each action, and from its building on. -/
structure TellsLess (t : Option Level) (c d : Cpu β) (actions : List (Action β)) : Prop where
  replies : (c.history actions).1 = (d.history actions).1
  machine : { (c.history actions).2 with journal := {} } =
    { (d.history actions).2 with journal := {} }
  chronicle : c.chronicle actions = (d.chronicle actions).map (passing t)
  messages : (c.history actions).2.journal.messages =
    (d.history actions).2.journal.messages.filter fun m => m.1.passes t

theorem tellsLess_retold (c : Cpu β) (t : Option Level) (actions : List (Action β)) :
    TellsLess t (c.retold (.lowered t)) c actions := by
  have hhistory := history_retold (Journal.isRetelling_lowered t) c actions
  refine ⟨?_, ?_, c.chronicle_lowered t actions, ?_⟩
  · rw [hhistory]
  · rw [hhistory]
    rfl
  · rw [hhistory, journal_retold, Journal.messages_lowered]

/-- **Logging never influences execution.** Take two thresholds, of which one lets everything pass
that the other does. Machines that are alike but for these thresholds, machines switched on with
them, and machines built with them on a memory of any size give the same replies to every history
and end alike. The messages of the one are those of the other without the levels that its threshold
shuts out, in the same order and with the same actions; and where one cannot be built, the other
cannot either, for the same reason. -/
theorem logging_never_influences {quiet loud : Option Level}
    (h : ∀ l : Level, l.passes quiet = true → l.passes loud = true) :
    (∀ (c : Cpu β) (actions : List (Action β)),
      TellsLess quiet { c with journal := ⟨quiet, []⟩ } { c with journal := ⟨loud, []⟩ } actions) ∧
    (∀ (config : Config) (bus : β) (actions : List (Action β)),
      TellsLess quiet (powerOn config ⟨quiet, []⟩ bus) (powerOn config ⟨loud, []⟩ bus) actions) ∧
    ∀ (size : Nat) (config : Config),
      (∃ e, withMemorySize size config ⟨quiet, []⟩ = .error e ∧
        withMemorySize size config ⟨loud, []⟩ = .error e) ∨
      ∃ c d, withMemorySize size config ⟨quiet, []⟩ = .ok c ∧
        withMemorySize size config ⟨loud, []⟩ = .ok d ∧
        ∀ actions : List (Action Memory), TellsLess quiet c d actions := by
  have hquiet : (⟨quiet, []⟩ : Journal) = (⟨loud, []⟩ : Journal).lowered quiet :=
    congrArg (Journal.mk · []) (Level.lower_eq_left h).symm
  rw [hquiet]
  have hretelling := Journal.isRetelling_lowered quiet
  refine ⟨?_, ?_, ?_⟩
  · intro c actions
    exact tellsLess_retold { c with journal := ⟨loud, []⟩ } quiet actions
  · intro config bus actions
    rw [powerOn_retold hretelling]
    exact tellsLess_retold _ quiet actions
  · intro size config
    rw [withMemorySize_retold hretelling]
    cases withMemorySize size config ⟨loud, []⟩ with
    | error e => exact .inl ⟨e, rfl, rfl⟩
    | ok d => exact .inr ⟨_, d, rfl, rfl, fun actions => tellsLess_retold d quiet actions⟩

/-- A reset, and the instruction that is there. -/
def resetAndStep : List (Action Ram) := [.command .reset, .command .step]

theorem logging_never_influences_spinning :
    (∀ l : Level, l.passes (some .debug) = true → l.passes (some .trace) = true) ∧
      chronicle { spinning with journal := ⟨some .trace, []⟩ } resetAndStep =
        [(.done, [(.debug, "reset: PC=$0000")]),
          (.stepped (.ok (.instruction 0x4C 3)), [(.trace, "0000  JMP $0000")])] ∧
      chronicle { spinning with journal := ⟨some .debug, []⟩ } resetAndStep =
        [(.done, [(.debug, "reset: PC=$0000")]), (.stepped (.ok (.instruction 0x4C 3)), [])] := by
  have hpasses : ∀ l : Level, l.passes (some .debug) = true → l.passes (some .trace) = true := by
    intro l
    cases l <;> decide
  have hloud : chronicle { spinning with journal := ⟨some .trace, []⟩ } resetAndStep =
      [(.done, [(.debug, "reset: PC=$0000")]),
        (.stepped (.ok (.instruction 0x4C 3)), [(.trace, "0000  JMP $0000")])] := rfl
  have hquiet := ((logging_never_influences hpasses).1 spinning resetAndStep).chronicle
  rw [hloud] at hquiet
  exact ⟨hpasses, hloud, hquiet⟩

end Cpu

end Nmos6502
