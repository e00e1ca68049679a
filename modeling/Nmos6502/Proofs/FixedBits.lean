import Nmos6502.Proofs.Marks
import Nmos6502.Settings

/-!
# Where the fixed bits come from

A status is had in three ways: as the one at power-on, from a byte, and from stored data. From there
on it is changed by updates, each with a mask. What is wanted of it is that bit 5 is set and bit 4
clear, so that an unmarked copy of it is unmarked, and that an update changes no bit outside its
mask. `Status.Guarded` is all of that together.

It comes down to the two bits. Every update ends in `Status.ofByte`. Outside its mask that is the
same as if there had been no update at all, only `Status.ofByte`: `Status.update_and_not`. So an
update of a status that has the two bits right changes nothing outside its mask, and one that does
not has them put right, mask or no mask.

The first two ways to have a status end in `Status.ofByte` too. The third does not: what is read
back is the byte that was stored. A status from data is guarded from its first update on, and before
that just if the byte was.

## Main definitions

* `Status.Update`, `Status.updates` — changes of a status
* `Status.Guarded` — what is wanted of it

## Main results

* `Status.update_and_not` — what an update does outside its mask
* `Status.guarded_iff` — a status is guarded if it has the two bits right
* `Status.ofDatum?_eq_some_iff` — data from which a status can be read
* `Status.guarded_by_origin` — which statuses are guarded
* `Status.stored_unguarded` — one that is not
-/

namespace Nmos6502

/-- A byte can be read from its own number, and from nothing else. -/
theorem Datum.byte?_eq_some_iff {d : Datum} {b : UInt8} : d.byte? = some b ↔ d = .ofByte b := by
  cases d with
  | integer z =>
    cases z with
    | ofNat n =>
      have hbyte : n < 256 ∧ UInt8.ofNat n = b ↔ n = b.toNat := by
        constructor
        · rintro ⟨hlt, rfl⟩
          exact (UInt8.toNat_ofNat_of_lt' hlt).symm
        · rintro rfl
          exact ⟨b.toNat_lt, UInt8.ofNat_toNat⟩
      have hdatum : integer (.ofNat n) = ofByte b ↔ n = b.toNat := by
        rw [ofByte, integer.injEq]
        exact Int.ofNat_inj
      rw [hdatum, ← hbyte]
      simp [byte?, below?]
    | negSucc n => simp [byte?, below?, ofByte]
  | _ => simp [byte?, below?, ofByte]

namespace Status

/-- The data from which a status can be read: the number of its byte, with every bit as it is. -/
theorem ofDatum?_eq_some_iff {d : Datum} {p : Status} :
    ofDatum? d = some p ↔ d = .ofByte p.bits := by
  rw [ofDatum?, Option.map_eq_some_iff]
  constructor
  · rintro ⟨b, hb, rfl⟩
    exact Datum.byte?_eq_some_iff.mp hb
  · rintro rfl
    exact ⟨p.bits, Datum.byte?_eq_some_iff.mpr rfl, rfl⟩

/-! ## Updates -/

/-- A change of a status. -/
inductive Update
  | set (mask : UInt8) (on : Bool)
  | setZN (value : UInt8)

/-- The bits that an update is for. -/
def Update.mask : Update → UInt8
  | set mask _ => mask
  | setZN _ => zero ||| negative

def update (p : Status) : Update → Status
  | .set mask on => p.set mask on
  | .setZN value => p.setZN value

/-- Make changes one after the other. -/
def updates (p : Status) (us : List Update) : Status := us.foldl update p

theorem wellFormed_update (p : Status) (u : Update) : (p.update u).WellFormed := by
  cases u with
  | set mask on => exact wellFormed_set p mask on
  | setZN value => exact wellFormed_setZN p value

theorem wellFormed_updates {p : Status} (h : p.WellFormed) (us : List Update) :
    (p.updates us).WellFormed := by
  induction us generalizing p with
  | nil => exact h
  | cons u rest ih => exact ih (p.wellFormed_update u)

/-- Updates leave a well-formed status if there is one among them, or if there was one before. -/
theorem wellFormed_updates_iff (p : Status) (us : List Update) :
    (p.updates us).WellFormed ↔ us ≠ [] ∨ p.WellFormed := by
  cases us with
  | nil => simp [updates]
  | cons u rest =>
    have hrest : (p.updates (u :: rest)).WellFormed :=
      wellFormed_updates (p.wellFormed_update u) rest
    simp [hrest]

/-! ## Outside the mask -/

/-- A well-formed status is the one for its byte. -/
theorem ofByte_bits {p : Status} (h : p.WellFormed) : ofByte p.bits = p :=
  forall_byte (P := fun b => (⟨b⟩ : Status).WellFormed → ofByte b = ⟨b⟩) (by decide +kernel)
    p.bits h

/-- The bits of a status after a set. -/
theorem getElem_set (p : Status) (mask : UInt8) (on : Bool) {i : Nat} (hi : i < 8) :
    (p.set mask on).bits.toBitVec[i] =
      ((if mask.toBitVec[i] then on else p.bits.toBitVec[i]) && !breakMark.toBitVec[i] ||
        reserved.toBitVec[i]) := by
  cases on <;> cases hmask : mask.toBitVec[i] <;> simp [set, ofByte, hmask]

theorem set_and_not (p : Status) (mask : UInt8) (on : Bool) :
    (p.set mask on).bits &&& ~~~mask = (ofByte p.bits).bits &&& ~~~mask := by
  refine UInt8.toBitVec_inj.mp (BitVec.eq_of_getElem_eq fun i hi => ?_)
  simp only [UInt8.toBitVec_and, UInt8.toBitVec_not, BitVec.getElem_and, BitVec.getElem_not,
    getElem_set, ofByte, UInt8.toBitVec_or, BitVec.getElem_or]
  cases mask.toBitVec[i] <;> simp

/-- The flags of the mask have the value that they are given. -/
theorem set_and (p : Status) (mask : UInt8) (on : Bool) :
    (p.set mask on).bits &&& (mask &&& ~~~(breakMark ||| reserved)) =
      if on then mask &&& ~~~(breakMark ||| reserved) else 0 := by
  refine UInt8.toBitVec_inj.mp (BitVec.eq_of_getElem_eq fun i hi => ?_)
  cases on <;> cases hmask : mask.toBitVec[i] <;> cases hbreak : breakMark.toBitVec[i] <;>
    simp [getElem_set, hmask, hbreak]

/-- **Outside its mask** an update leaves what is left of the status for its byte. -/
theorem update_and_not (p : Status) (u : Update) :
    (p.update u).bits &&& ~~~u.mask = (ofByte p.bits).bits &&& ~~~u.mask := by
  cases u with
  | set mask on => exact p.set_and_not mask on
  | setZN value =>
    have hzero : (p.set zero (value == 0)).WellFormed := wellFormed_set p _ _
    have hmask : ~~~(zero ||| negative) = ~~~negative &&& ~~~zero := by decide
    show ((p.set zero _).set negative _).bits &&& ~~~(zero ||| negative) = _
    rw [hmask, ← UInt8.and_assoc, set_and_not, ofByte_bits hzero, UInt8.and_assoc,
      UInt8.and_comm (~~~negative), ← UInt8.and_assoc, set_and_not, UInt8.and_assoc,
      UInt8.and_comm (~~~zero), ← hmask]
    rfl

/-! ## Guarded statuses -/

/-- Bit 5 is set and bit 4 is clear, also in an unmarked copy, and no update changes a bit outside
its mask. -/
structure Guarded (p : Status) : Prop where
  bitFive : p.bits &&& reserved = reserved
  bitFour : p.bits &&& breakMark = 0
  copy : p.pushed false &&& breakMark = 0
  frame : ∀ u : Update, (p.update u).bits &&& ~~~u.mask = p.bits &&& ~~~u.mask

/-- **A status is guarded if it has the two bits right.** -/
theorem guarded_iff {p : Status} : p.Guarded ↔ p.WellFormed := by
  constructor
  · exact fun h => wellFormed_iff.mpr ⟨h.bitFive, h.bitFour⟩
  · intro h
    obtain ⟨hfive, hfour⟩ := wellFormed_iff.mp h
    refine ⟨hfive, hfour, (pushed_and h false).2, fun u => ?_⟩
    rw [update_and_not, ofByte_bits h]

/-- **Which statuses are guarded.** The status at power-on, and the status for any byte, after any
updates. A status that has all bits of a byte can be read from the number of that byte, and from no
other data. After updates it is guarded if there is one among them, and otherwise just if bit 5 of
the byte is set and bit 4 clear. Even so, a set gives the flags of its mask their value, and outside
its mask an update leaves what the status for the same byte has there. -/
theorem guarded_by_origin (b : UInt8) (us : List Update) :
    (initial.updates us).Guarded ∧
    ((ofByte b).updates us).Guarded ∧
    (∀ d, ofDatum? d = some ⟨b⟩ ↔ d = .ofByte b) ∧
    (((⟨b⟩ : Status).updates us).Guarded ↔
      us ≠ [] ∨ b &&& reserved = reserved ∧ b &&& breakMark = 0) ∧
    (∀ mask on, ((⟨b⟩ : Status).set mask on).bits &&& (mask &&& ~~~(breakMark ||| reserved)) =
      if on then mask &&& ~~~(breakMark ||| reserved) else 0) ∧
    ∀ u, ((⟨b⟩ : Status).update u).bits &&& ~~~u.mask = (ofByte b).bits &&& ~~~u.mask := by
  refine ⟨?_, ?_, ?_, ?_, set_and ⟨b⟩, update_and_not ⟨b⟩⟩
  · exact guarded_iff.mpr (wellFormed_updates (by decide) us)
  · exact guarded_iff.mpr (wellFormed_updates (wellFormed_ofByte b) us)
  · exact fun d => ofDatum?_eq_some_iff
  · rw [guarded_iff, wellFormed_updates_iff, wellFormed_iff]

/-- **A stored status that is not guarded.** It is read back with bit 5 clear and bit 4 set, an
unmarked copy of it is marked, and setting the carry changes both bits. -/
theorem stored_unguarded :
    ∃ p, ofDatum? (.integer 0x10) = some p ∧
      p.bits &&& reserved = 0 ∧ p.bits &&& breakMark = breakMark ∧
      p.pushed false &&& breakMark = breakMark ∧
      (p.set carry true).bits &&& ~~~carry ≠ p.bits &&& ~~~carry := by
  refine ⟨⟨0x10⟩, rfl, ?_⟩
  decide

end Status

end Nmos6502
