import Nmos6502.Effect

/-!
# The two fixed bits

Bit 5 of a status is one and bit 4 is zero. `Status` does not say so, since a status that was read
back from stored data may be any byte; it is a fact about statuses that a machine makes. Both bits
are fixed by `Status.ofByte`, and every update ends there, so an update gives a well-formed status
whatever it was given. Only an operation that leaves the status alone needs to know that it was
well-formed before.

On a well-formed status the pushed copy loses nothing. It differs in bit 4 at most, and bit 4 is
what `Status.ofByte` puts right when the copy is pulled.

## Main definitions

* `Status.WellFormed` — bit 5 is set and bit 4 is clear
* `Status.flags` — the six flags
* `Status.Describes` — zero and negative are those of a byte
* `Status.SameBut` — statuses that agree but for some flags

## Main results

* `Status.wellFormed_set` — every update gives a well-formed status
* `Status.ofByte_pushed` — a pushed copy is pulled as the status it was
* `Status.contains_set` — an update of one flag is seen in that flag and in no other
* `Status.describes_setZN` — the flags for a result describe it
-/

namespace Nmos6502

/-- What holds of 256 numbers holds of every byte. -/
theorem forall_byte {P : UInt8 → Prop} (h : ∀ n : Fin 256, P (UInt8.ofFin n)) (b : UInt8) : P b :=
  h b.toFin

namespace Status

/-- Bit 5 is set and bit 4 is clear. -/
def WellFormed (p : Status) : Prop := p.bits &&& (breakMark ||| reserved) = reserved

instance (p : Status) : Decidable p.WellFormed := inferInstanceAs (Decidable (_ = _))

theorem testBit_four_of_wellFormed {p : Status} (h : p.WellFormed) :
    p.bits.toNat.testBit 4 = false :=
  forall_byte (P := fun b => (⟨b⟩ : Status).WellFormed → b.toNat.testBit 4 = false)
    (by decide +kernel) p.bits h

theorem wellFormed_ofByte (b : UInt8) : (ofByte b).WellFormed :=
  forall_byte (P := fun b => (ofByte b).WellFormed) (by decide +kernel) b

theorem wellFormed_set (p : Status) (mask : UInt8) (on : Bool) : (p.set mask on).WellFormed :=
  wellFormed_ofByte _

theorem wellFormed_setZN (p : Status) (value : UInt8) : (p.setZN value).WellFormed :=
  wellFormed_set _ _ _

/-! ## Operations keep them -/

/-- What a reader does to the status ends in an update. -/
theorem wellFormed_reader (rd : Reader) (r : Registers) (value : UInt8) :
    (rd.apply r value).p.WellFormed := by
  cases rd <;> exact wellFormed_set _ _ _

theorem wellFormed_modifier (m : Modifier) (p : Status) (b : UInt8) :
    (m.status p b).WellFormed := by
  cases m <;> exact wellFormed_setZN _ _

theorem wellFormed_shift (s : Shift) (r : Registers) : (s.apply r).p.WellFormed :=
  wellFormed_modifier (.shift s) r.p r.a

theorem wellFormed_implied (i : Implied) {r : Registers} (h : r.p.WellFormed) :
    (i.apply r).p.WellFormed := by
  cases i with
  | txs => exact h
  | nop => exact h
  | _ => exact wellFormed_set _ _ _

/-! ## The pushed copy -/

/-- **A pushed copy is pulled as the status it was**, marked or not. -/
theorem ofByte_pushed {p : Status} (h : p.WellFormed) (marked : Bool) :
    ofByte (p.pushed marked) = p :=
  forall_byte (P := fun b => ∀ marked, (⟨b⟩ : Status).WellFormed →
    ofByte ((⟨b⟩ : Status).pushed marked) = ⟨b⟩) (by decide +kernel) p.bits marked h

/-- Setting the flag I sets one bit and touches no other. -/
theorem set_interruptDisable {p : Status} (h : p.WellFormed) :
    p.set interruptDisable true = ⟨p.bits ||| interruptDisable⟩ :=
  forall_byte (P := fun b => (⟨b⟩ : Status).WellFormed →
    (⟨b⟩ : Status).set interruptDisable true = ⟨b ||| interruptDisable⟩) (by decide +kernel)
    p.bits h

/-! ## Single flags -/

/-- The six flags. -/
def flags : List UInt8 := [carry, zero, interruptDisable, decimal, overflow, negative]

theorem or_and_byte (a b mask : UInt8) : (a ||| b) &&& mask = (a &&& mask) ||| (b &&& mask) := by
  refine UInt8.toBitVec_inj.mp (BitVec.eq_of_getLsbD_eq fun i _ => ?_)
  simp only [UInt8.toBitVec_and, UInt8.toBitVec_or, BitVec.getLsbD_and, BitVec.getLsbD_or,
    Bool.and_or_distrib_right]

theorem or_and_self_byte (a b : UInt8) : (a ||| b) &&& b = b := by
  refine UInt8.toBitVec_inj.mp (BitVec.eq_of_getLsbD_eq fun i _ => ?_)
  rw [UInt8.toBitVec_and, UInt8.toBitVec_or, BitVec.getLsbD_and, BitVec.getLsbD_or]
  cases a.toBitVec.getLsbD i <;> cases b.toBitVec.getLsbD i <;> rfl

/-- What holds of each of the six holds of every flag. -/
theorem forall_flag {P : UInt8 → Prop} (h : P carry ∧ P zero ∧ P interruptDisable ∧ P decimal ∧
    P overflow ∧ P negative) {mask : UInt8} (hm : mask ∈ flags) : P mask := by
  obtain ⟨hcarry, hzero, hinterrupt, hdecimal, hoverflow, hnegative⟩ := h
  simp only [flags, List.mem_cons, List.not_mem_nil, or_false] at hm
  rcases hm with rfl | rfl | rfl | rfl | rfl | rfl <;> assumption

/-- The fixed bits are no flags. -/
theorem contains_ofByte (b : UInt8) {mask : UInt8} (hm : mask ∈ flags) :
    (ofByte b).contains mask = (⟨b⟩ : Status).contains mask := by
  obtain ⟨hbreak, hreserved⟩ : ~~~breakMark &&& mask = mask ∧ reserved &&& mask = 0 :=
    forall_flag (P := fun mask => ~~~breakMark &&& mask = mask ∧ reserved &&& mask = 0)
      (by decide) hm
  rw [ofByte, contains, contains, or_and_byte, UInt8.and_assoc, hbreak, hreserved, UInt8.or_zero]

/-- Two flags have no bit in common. -/
theorem apart {flag mask : UInt8} (hf : flag ∈ flags) (hm : mask ∈ flags) (h : mask ≠ flag) :
    flag &&& mask = 0 ∧ ~~~flag &&& mask = mask := by
  have hpairs : ∀ flag ∈ flags, ∀ mask ∈ flags, mask ≠ flag →
      flag &&& mask = 0 ∧ ~~~flag &&& mask = mask := by
    simp only [flags, List.forall_mem_cons, List.not_mem_nil, false_implies, implies_true, and_true]
    and_intros <;> decide
  exact hpairs flag hf mask hm h

/-- **An update of one flag is seen in that flag and in no other.** -/
theorem contains_set (p : Status) {flag mask : UInt8} (hf : flag ∈ flags) (hm : mask ∈ flags)
    (on : Bool) : (p.set flag on).contains mask = if mask = flag then on else p.contains mask := by
  rw [set, contains_ofByte _ hm, contains]
  by_cases h : mask = flag
  · have hne : 0 ≠ mask := forall_flag (P := fun mask => 0 ≠ mask) (by decide) hm
    have hoff : ~~~mask &&& mask = 0 := UInt8.not_and_self
    subst h
    rw [if_pos rfl]
    cases on with
    | true => rw [if_pos rfl, or_and_self_byte, beq_self_eq_true]
    | false => rw [if_neg Bool.false_ne_true, UInt8.and_assoc, hoff, UInt8.and_zero,
        beq_eq_false_iff_ne.mpr hne]
  · obtain ⟨hon, hoff⟩ := apart hf hm h
    rw [if_neg h, contains]
    cases on with
    | true => rw [if_pos rfl, or_and_byte, hon, UInt8.or_zero]
    | false => rw [if_neg Bool.false_ne_true, UInt8.and_assoc, hoff]

/-- The flags for a result are zero and negative. -/
theorem contains_setZN (p : Status) {mask : UInt8} (hm : mask ∈ flags) (hz : mask ≠ zero)
    (hn : mask ≠ negative) (value : UInt8) :
    (p.setZN value).contains mask = p.contains mask := by
  rw [setZN, contains_set _ (by decide) hm, if_neg hn, contains_set _ (by decide) hm, if_neg hz]

/-! ## The flags for a result -/

/-- Zero and negative say of a byte what it is: zero that the byte is 0, negative its bit 7. -/
def Describes (p : Status) (value : UInt8) : Prop :=
  (p.contains zero = true ↔ value = 0) ∧ p.contains negative = value.toNat.testBit 7

/-- Bit 7 is set from 128 on. -/
theorem testBit_seven (b : UInt8) : b.toNat.testBit 7 = decide (0x80 ≤ b) :=
  forall_byte (P := fun b => b.toNat.testBit 7 = decide (0x80 ≤ b)) (by decide +kernel) b

/-- **The flags for a result describe it**, whatever they said before. -/
theorem describes_setZN (p : Status) (value : UInt8) : (p.setZN value).Describes value := by
  constructor
  · rw [setZN, contains_set _ (by decide) (by decide), if_neg (by decide),
      contains_set _ (by decide) (by decide), if_pos rfl, beq_iff_eq]
  · rw [setZN, contains_set _ (by decide) (by decide), if_pos rfl, testBit_seven]

/-- Two statuses that describe the same byte agree in the flags for it. -/
theorem Describes.agree {p q : Status} {value : UInt8} (hp : p.Describes value)
    (hq : q.Describes value) : ∀ mask ∈ [zero, negative], p.contains mask = q.contains mask := by
  simp only [List.forall_mem_cons, List.not_mem_nil, false_implies, implies_true, and_true]
  refine ⟨?_, ?_⟩
  · rw [← Bool.coe_iff_coe, hp.1, hq.1]
  · rw [hp.2, hq.2]

/-! ## Flags that stay -/

/-- Another status that may differ in the given flags, and in no others. -/
def SameBut (masks : List UInt8) (p q : Status) : Prop :=
  ∀ mask ∈ flags, mask ∉ masks → q.contains mask = p.contains mask

namespace SameBut

variable {masks : List UInt8} {p q : Status}

theorem refl (masks : List UInt8) (p : Status) : SameBut masks p p := fun _ _ _ => rfl

/-- All six flags may differ between any two. -/
theorem all (p q : Status) : SameBut flags p q := fun _ hm hnot => absurd hm hnot

/-- An update of a flag that may differ. -/
theorem set (h : SameBut masks p q) (flag : UInt8) (hflag : flag ∈ flags) (hmem : flag ∈ masks)
    (on : Bool) : SameBut masks p (q.set flag on) := by
  intro mask hm hnot
  have hne : mask ≠ flag := fun he => hnot (he ▸ hmem)
  rw [contains_set q hflag hm, if_neg hne]
  exact h mask hm hnot

/-- The flags for a result, if they may differ. -/
theorem setZN (h : SameBut masks p q) (hz : zero ∈ masks) (hn : negative ∈ masks) (value : UInt8) :
    SameBut masks p (q.setZN value) :=
  (h.set zero (by decide) hz _).set negative (by decide) hn _

end SameBut

end Status

end Nmos6502
