import Nmos6502.Monitor

/-!
# The stack is a list

The stack lies in one page of memory and its pointer goes around that page. Whoever pushes and pulls
need not know it. As long as nothing is pulled that was not pushed, and no more than the page holds,
the replies are those of a list of bytes. The pointer may start anywhere and may wrap in the middle
of a word, and the page may be full to the last slot.

## One slot too many

What a list of bytes stands for is the slots above the pointer, as many as the list is long, counted
around the page. A pull takes the first of them by definition. A push has to leave the others alone,
and it does as long as the slot that it writes is not among them: the pointer itself comes up again
behind 255 slots. So 256 bytes fit, and one more would overwrite the first.

The memory has to have the whole page installed. A slot without memory would read as zero.

## Main definitions

* `StackOp`, `StackOp.onList` — the four operations, and what they do to a list
* `StackOp.Balanced` — nothing is pulled that was not pushed, and the page is not overfull
* `Cpu.slotsAbove`, `Cpu.StackHolds` — the bytes on the stack

## Main results

* `Cpu.StackHolds.push`, `Cpu.StackHolds.pull` — one byte
* `Cpu.StackHolds.exec`, `Cpu.StackHolds.session` — one operation, and many
* `Cpu.stack_refines_list` — the replies, the pointer and the rest of the memory
-/

universe u

namespace Nmos6502

/-! ## The operations -/

/-- An operation on the stack. -/
inductive StackOp
  | push (b : UInt8)
  | pushWord (w : UInt16)
  | pull
  | pullWord
  deriving DecidableEq, Repr

namespace StackOp

/-- The operation as a command. -/
def command : StackOp → Command
  | push b => .push b
  | pushWord w => .pushWord w
  | pull => .pull
  | pullWord => .pullWord

/-- By how many bytes the stack grows. -/
def growth : StackOp → Int
  | push _ => 1
  | pushWord _ => 2
  | pull => -1
  | pullWord => -2

/-- How many bytes have been pushed and not yet pulled. -/
def depth : List StackOp → Int
  | [] => 0
  | op :: rest => op.growth + depth rest

/-- At no time has more been pulled than pushed, or are there more than 256 bytes. -/
def Balanced (ops : List StackOp) : Prop :=
  ∀ k ≤ ops.length, 0 ≤ depth (ops.take k) ∧ depth (ops.take k) ≤ 256

instance (ops : List StackOp) : Decidable (Balanced ops) :=
  inferInstanceAs (Decidable (∀ k ≤ ops.length, _ ∧ _))

/-- The operation on a list of bytes, the top first: its reply and the list after it, if there are
enough bytes. A word is pushed high byte first. -/
def onList : StackOp → List UInt8 → Option (Reply × List UInt8)
  | push b, bs => some (.done, b :: bs)
  | pushWord w, bs => some (.done, lowByte w :: highByte w :: bs)
  | pull, b :: bs => some (.byte b, bs)
  | pullWord, lo :: hi :: bs => some (.word (word lo hi), bs)
  | _, _ => none

/-- Operations on a list of bytes, one after the other. -/
def runOnList : List StackOp → List UInt8 → Option (List Reply × List UInt8)
  | [], bs => some ([], bs)
  | op :: rest, bs => do
    let (reply, bs) ← op.onList bs
    let (replies, bs) ← runOnList rest bs
    return (reply :: replies, bs)

@[simp] theorem depth_nil : depth [] = 0 := rfl

@[simp] theorem depth_cons (op : StackOp) (rest : List StackOp) :
    depth (op :: rest) = op.growth + depth rest := rfl

theorem Balanced.take {ops : List StackOp} (h : Balanced ops) (k : Nat) :
    Balanced (ops.take k) := by
  intro j hj
  rw [List.length_take] at hj
  rw [List.take_take, Nat.min_eq_left (by omega)]
  exact h j (by omega)

end StackOp

/-! ## The bytes on the stack -/

theorem Memory.read_write {m : Memory} {a : UInt16} (h : a.toNat < m.size) (i : UInt16)
    (b : UInt8) : (m.write a b).read i = if i = a then b else m.read i := by
  have hin : m.inRange a = true := by simp [inRange, h]
  simp only [read_eq, size_write, stored_write, hin, and_true]
  by_cases hi : i = a
  · subst hi
    simp [h]
  · simp [hi]

theorem word_inj_low {lo lo' hi : UInt8} : word lo hi = word lo' hi ↔ lo = lo' := by
  refine ⟨fun h => ?_, fun h => h ▸ rfl⟩
  rw [← lowByte_word lo hi, h, lowByte_word]

namespace Cpu

section Slots

variable {β : Type u} [Bus β]

@[simp] theorem pointer_push (c : Cpu β) (b : UInt8) : (c.push b).regs.s = c.regs.s - 1 := rfl

@[simp] theorem pointer_pull (c : Cpu β) : c.pull.2.regs.s = c.regs.s + 1 := rfl

/-- The bytes in the `count` slots above a slot. The last slot of the page is followed by the
first. -/
def slotsAbove (c : Cpu β) (slot : UInt8) : (count : Nat) → List UInt8
  | 0 => []
  | count + 1 => Bus.read c.bus (c.stackAddress (slot + 1)) :: c.slotsAbove (slot + 1) count

/-- A pull leaves every slot alone. -/
theorem slotsAbove_pull (c : Cpu β) (slot : UInt8) (count : Nat) :
    c.pull.2.slotsAbove slot count = c.slotsAbove slot count := by
  induction count generalizing slot with
  | zero => rfl
  | succ count ih => exact congrArg (_ :: ·) (ih (slot + 1))

end Slots

/-- The whole page of the stack is installed. -/
def StackInstalled (c : Cpu Memory) : Prop := c.config.stackPage.toNat * 256 + 256 ≤ c.bus.size

theorem StackInstalled.lt {c : Cpu Memory} (h : c.StackInstalled) (slot : UInt8) :
    (c.stackAddress slot).toNat < c.bus.size := by
  have hslot := slot.toNat_lt
  rw [StackInstalled] at h
  rw [stackAddress, toNat_word]
  omega

/-- A push writes the slot at the pointer. -/
theorem read_push {c : Cpu Memory} (h : c.StackInstalled) (b slot : UInt8) :
    Bus.read (c.push b).bus (c.stackAddress slot) =
      if slot = c.regs.s then b else Bus.read c.bus (c.stackAddress slot) := by
  have hread := Memory.read_write (h.lt c.regs.s) (c.stackAddress slot) b
  simp only [stackAddress, word_inj_low] at hread
  exact hread

/-- A push leaves slots alone that are not at the pointer. -/
theorem slotsAbove_push {c : Cpu Memory} (h : c.StackInstalled) (b slot : UInt8) (count : Nat)
    (hslot : ∀ i < count, slot + 1 + UInt8.ofNat i ≠ c.regs.s) :
    (c.push b).slotsAbove slot count = c.slotsAbove slot count := by
  induction count generalizing slot with
  | zero => rfl
  | succ count ih =>
    have hfirst : slot + 1 ≠ c.regs.s := by simpa using hslot 0 (by omega)
    have hrest : ∀ i < count, slot + 1 + 1 + UInt8.ofNat i ≠ c.regs.s := by
      intro i hi
      have hnext : slot + 1 + UInt8.ofNat (i + 1) = slot + 1 + 1 + UInt8.ofNat i := by
        rw [UInt8.ofNat_add]
        grind
      exact hnext ▸ hslot (i + 1) (by omega)
    have hread := read_push h b (slot + 1)
    rw [if_neg hfirst] at hread
    rw [slotsAbove, slotsAbove, ih (slot + 1) hrest]
    exact congrArg (· :: _) hread

/-- The pointer does not come up among the 255 slots above it. -/
theorem add_one_add_ofNat_ne (s : UInt8) {i : Nat} (h : i < 255) : s + 1 + UInt8.ofNat i ≠ s := by
  intro he
  have hs := s.toNat_lt
  have hn := congrArg UInt8.toNat he
  simp only [UInt8.toNat_add, UInt8.toNat_ofNat', UInt8.reduceToNat] at hn
  omega

/-- A machine that started as another has just these bytes on the stack, the top first, and the
memory outside the page of the stack is as it was. -/
structure StackHolds (start c : Cpu Memory) (bs : List UInt8) : Prop where
  slots : c.slotsAbove c.regs.s bs.length = bs
  fits : bs.length ≤ 256
  pointer : c.regs.s = start.regs.s - UInt8.ofNat bs.length
  page : c.config.stackPage = start.config.stackPage
  size : c.bus.size = start.bus.size
  outside : ∀ a, highByte a ≠ start.config.stackPage → c.bus.stored a = start.bus.stored a

namespace StackHolds

variable {start c : Cpu Memory} {bs : List UInt8}

theorem nil (c : Cpu Memory) : StackHolds c c [] where
  slots := rfl
  fits := by simp
  pointer := by simp
  page := rfl
  size := rfl
  outside _ _ := rfl

theorem installed (h : StackHolds start c bs) (hs : start.StackInstalled) : c.StackInstalled := by
  rw [StackInstalled, h.page, h.size]
  exact hs

/-- **A push** puts a byte on top. -/
theorem push (h : StackHolds start c bs) (hs : start.StackInstalled) (hlt : bs.length < 256)
    (b : UInt8) : StackHolds start (c.push b) (b :: bs) where
  slots := by
    have hc := h.installed hs
    have htop := read_push hc b c.regs.s
    rw [if_pos rfl] at htop
    have hrest := slotsAbove_push hc b c.regs.s bs.length fun i hi =>
      add_one_add_ofNat_ne c.regs.s (by omega)
    rw [h.slots] at hrest
    rw [pointer_push, List.length_cons, slotsAbove, UInt8.sub_add_cancel, hrest]
    exact congrArg (· :: bs) htop
  fits := by
    rw [List.length_cons]
    omega
  pointer := by
    rw [pointer_push, h.pointer, List.length_cons, UInt8.ofNat_add]
    grind
  page := h.page
  size := by
    have hsize : (c.push b).bus.size = c.bus.size := Memory.size_write ..
    rw [hsize, h.size]
  outside a ha := by
    have hne : a ≠ c.stackAddress c.regs.s := by
      rintro rfl
      rw [stackAddress, highByte_word] at ha
      exact ha h.page
    have hstored : (c.push b).bus.stored a = c.bus.stored a := by
      have hwrite := Memory.stored_write c.bus (c.stackAddress c.regs.s) a b
      rw [if_neg (fun hboth => hne hboth.1)] at hwrite
      exact hwrite
    rw [hstored, h.outside a ha]

/-- **A pull** takes the byte on top. -/
theorem pull {b : UInt8} (h : StackHolds start c (b :: bs)) :
    c.pull.1 = b ∧ StackHolds start c.pull.2 bs := by
  obtain ⟨htop, hrest⟩ := List.cons.inj h.slots
  rw [← slotsAbove_pull] at hrest
  refine ⟨htop, ⟨hrest, ?_, ?_, h.page, h.size, h.outside⟩⟩
  · have hfits := h.fits
    rw [List.length_cons] at hfits
    omega
  · rw [pointer_pull, h.pointer, List.length_cons, UInt8.ofNat_add]
    grind

/-- **One operation** is that on the list, as long as the list has the bytes that are pulled and the
page has the slots that are pushed to. -/
theorem exec (h : StackHolds start c bs) (hs : start.StackInstalled) (op : StackOp)
    (hlow : 0 ≤ bs.length + op.growth) (hhigh : bs.length + op.growth ≤ 256) :
    ∃ bs', op.onList bs = some ((c.exec op.command).1, bs') ∧
      StackHolds start (c.exec op.command).2 bs' ∧ (bs'.length : Int) = bs.length + op.growth := by
  cases op with
  | push b =>
    rw [StackOp.growth] at hhigh
    refine ⟨b :: bs, rfl, h.push hs (by omega) b, ?_⟩
    simp [StackOp.growth]
  | pushWord w =>
    rw [StackOp.growth] at hhigh
    have hhi : StackHolds start (c.push (highByte w)) (highByte w :: bs) := h.push hs (by omega) _
    have hlo := hhi.push hs (by rw [List.length_cons]; omega) (lowByte w)
    refine ⟨lowByte w :: highByte w :: bs, rfl, hlo, ?_⟩
    simp only [StackOp.growth, List.length_cons]
    omega
  | pull =>
    cases bs with
    | nil => simp [StackOp.growth] at hlow
    | cons b bs =>
      obtain ⟨htop, hrest⟩ := h.pull
      refine ⟨bs, ?_, hrest, ?_⟩
      · have hreply : (c.exec StackOp.pull.command).1 = .byte c.pull.1 := rfl
        rw [hreply, htop]
        rfl
      · simp only [StackOp.growth, List.length_cons]
        omega
  | pullWord =>
    rcases bs with _ | ⟨lo, _ | ⟨hi, bs⟩⟩
    · simp [StackOp.growth] at hlow
    · simp [StackOp.growth] at hlow
    · obtain ⟨hlo, hnext⟩ := h.pull
      obtain ⟨hhi, hrest⟩ := hnext.pull
      refine ⟨bs, ?_, hrest, ?_⟩
      · have hreply : (c.exec StackOp.pullWord.command).1 =
            .word (word c.pull.1 c.pull.2.pull.1) := rfl
        rw [hreply, hlo, hhi]
        rfl
      · simp only [StackOp.growth, List.length_cons]
        omega

/-- **Many operations** are those on the list. -/
theorem session (h : StackHolds start c bs) (hs : start.StackInstalled) (ops : List StackOp)
    (hops : ∀ k ≤ ops.length, 0 ≤ bs.length + StackOp.depth (ops.take k) ∧
      bs.length + StackOp.depth (ops.take k) ≤ 256) :
    ∃ bs', StackOp.runOnList ops bs = some ((c.session (ops.map StackOp.command)).1, bs') ∧
      StackHolds start (c.session (ops.map StackOp.command)).2 bs' ∧
      (bs'.length : Int) = bs.length + StackOp.depth ops := by
  induction ops generalizing c bs with
  | nil => exact ⟨bs, rfl, h, by simp⟩
  | cons op rest ih =>
    have hfirst := hops 1 (by simp)
    rw [List.take_succ_cons, List.take_zero, StackOp.depth_cons, StackOp.depth_nil] at hfirst
    obtain ⟨bs₁, hlist, hholds, hlength⟩ := h.exec hs op (by omega) (by omega)
    have hrest : ∀ k ≤ rest.length, 0 ≤ bs₁.length + StackOp.depth (rest.take k) ∧
        bs₁.length + StackOp.depth (rest.take k) ≤ 256 := by
      intro k hk
      have hk' := hops (k + 1) (by rw [List.length_cons]; omega)
      rw [List.take_succ_cons, StackOp.depth_cons] at hk'
      omega
    obtain ⟨bs₂, hlist₂, hholds₂, hlength₂⟩ := ih hholds hrest
    refine ⟨bs₂, ?_, hholds₂, ?_⟩
    · simp [StackOp.runOnList, hlist, hlist₂, Cpu.session]
    · rw [StackOp.depth_cons]
      omega

end StackHolds

/-- **The stack is a list.** On a machine whose memory has the whole page of the stack, with the
pointer anywhere, let any operations follow each other that pull nothing that was not pushed and
never have more than 256 bytes on the stack. After each of them: the replies so far are those of a
list of bytes that started empty, the pointer is where it started less the length of the list, which
is the number of bytes pushed and not yet pulled, and the memory outside the page is as it was. -/
theorem stack_refines_list {c : Cpu Memory}
    (installed : c.config.stackPage.toNat * 256 + 256 ≤ c.bus.size) {ops : List StackOp}
    (balanced : StackOp.Balanced ops) (k : Nat) :
    ∃ bs, StackOp.runOnList (ops.take k) [] =
        some ((c.session ((ops.take k).map StackOp.command)).1, bs) ∧
      (bs.length : Int) = StackOp.depth (ops.take k) ∧
      (c.session ((ops.take k).map StackOp.command)).2.regs.s =
        c.regs.s - UInt8.ofNat bs.length ∧
      ∀ a, highByte a ≠ c.config.stackPage →
        (c.session ((ops.take k).map StackOp.command)).2.bus.stored a = c.bus.stored a ∧
        (c.session ((ops.take k).map StackOp.command)).2.bus.read a = c.bus.read a := by
  have hprefix := balanced.take k
  obtain ⟨bs, hlist, hholds, hlength⟩ :=
    (StackHolds.nil c).session installed (ops.take k) (by simpa [StackOp.Balanced] using hprefix)
  rw [List.length_nil, Int.natCast_zero, Int.zero_add] at hlength
  refine ⟨bs, hlist, hlength, hholds.pointer, ?_⟩
  intro a ha
  have hstored := hholds.outside a ha
  refine ⟨hstored, ?_⟩
  rw [Memory.read_eq, Memory.read_eq, hholds.size, hstored]

/-- A machine with half a kibibyte of memory and its stack pointer at the bottom of the page. -/
def atPageBottom : Cpu Memory :=
  { regs := ⟨0, 0, 0, Status.initial, 0, 0⟩
    bus := ⟨.replicate 65536 0, 0x200, by decide, by decide⟩ }

/-- A word and a byte are pushed and pulled again. -/
def thereAndBack : List StackOp := [.pushWord 0x1234, .push 7, .pull, .pullWord]

theorem stack_refines_list_atPageBottom :
    atPageBottom.config.stackPage.toNat * 256 + 256 ≤ atPageBottom.bus.size ∧
      StackOp.Balanced thereAndBack ∧
      (atPageBottom.session (thereAndBack.map StackOp.command)).1 =
        [.done, .done, .byte 7, .word 0x1234] ∧
      (atPageBottom.session (thereAndBack.map StackOp.command)).2.regs.s = 0 ∧
      (atPageBottom.session (thereAndBack.map StackOp.command)).2.bus.read 0x00FF = 0 := by
  have hinstalled : atPageBottom.config.stackPage.toNat * 256 + 256 ≤ atPageBottom.bus.size := by
    decide
  have hbalanced : StackOp.Balanced thereAndBack := by decide
  obtain ⟨bs, hlist, -, hpointer, houtside⟩ :=
    stack_refines_list hinstalled hbalanced thereAndBack.length
  rw [List.take_length] at hlist hpointer houtside
  have hrun : StackOp.runOnList thereAndBack [] =
      some ([.done, .done, .byte 7, .word 0x1234], []) := rfl
  obtain ⟨hreplies, rfl⟩ := Prod.mk.inj (Option.some.inj (hrun.symm.trans hlist))
  refine ⟨hinstalled, hbalanced, hreplies.symm, hpointer, ?_⟩
  rw [(houtside 0x00FF (by decide)).2, Memory.read_eq]
  simp [atPageBottom, Memory.stored]

end Cpu

end Nmos6502
