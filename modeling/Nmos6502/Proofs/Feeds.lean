import Nmos6502.Cpu.Load
import Nmos6502.Proofs.Ram

/-!
# Loading from a feed

A program image that arrives in pieces is the same image. How it was cut, and whether the source
would have failed behind what there is room for, must not show in the machine. And if the source
fails too early, nothing at all may show. This module says so for every image, however it is cut,
and wherever the source fails.

## When a failure counts

A source that fails after some bytes fails at the first request behind them. Whether there is such a
request is decided by two numbers, the room above the address and the length of the image. As soon
as there is no more room, nothing is requested. At the end of the image the source is asked once
more, since only its answer tells that it was the end. So a failure just at the limit of the room is
never seen, and one just at the end of the image is, unless the room ends there as well.

The image is cut to the room twice, when it is collected and again when it is loaded. So a load
depends on no more than the bytes that fit, `Cpu.load_congr`, and a part of the image that has all
of them is as good as the image.

## Main definitions

* `Feed.HandsOut` — a feed of the bytes of an image, in pieces of any sizes

## Main results

* `Feed.collectOnto_eq` — what is read, by induction on the pieces
* `Cpu.load_from_handed_out` — loading from a feed
-/

universe u

namespace Nmos6502

namespace Feed

/-! ## What is read -/

/-- **What is read.** If no piece is empty, it does not matter how the bytes are cut. A failure is
seen exactly if fewer bytes than the limit come before it. -/
theorem collectOnto_eq (failure? : Option FeedError) (acc : List UInt8) (limit : Nat)
    {pieces : List (List UInt8)} (hpieces : ∀ piece ∈ pieces, piece ≠ []) :
    collectOnto failure? acc limit pieces =
      match failure? with
      | none => .ok (acc.reverse ++ pieces.flatten.take limit)
      | some e =>
        if pieces.flatten.length < limit then .error e
        else .ok (acc.reverse ++ pieces.flatten.take limit) := by
  induction pieces generalizing acc limit with
  | nil =>
    cases limit with
    | zero => cases failure? <;> simp [collectOnto]
    | succ limit => cases failure? <;> simp [collectOnto]
  | cons piece rest ih =>
    obtain ⟨hpiece, hrest⟩ := List.forall_mem_cons.mp hpieces
    cases limit with
    | zero => cases failure? <;> simp [collectOnto]
    | succ limit =>
      cases piece with
      | nil => exact absurd rfl hpiece
      | cons b bs =>
        have hroom : limit + 1 - (b :: bs).length = limit - bs.length := by
          rw [List.length_cons]
          omega
        have hflatten : ((b :: bs) :: rest).flatten.take (limit + 1) =
            (b :: bs).take (limit + 1) ++ rest.flatten.take (limit - bs.length) := by
          rw [List.flatten_cons, List.take_append, hroom]
        have hlength : ((b :: bs) :: rest).flatten.length < limit + 1 ↔
            rest.flatten.length < limit - bs.length := by
          rw [List.flatten_cons, List.length_append, List.length_cons]
          omega
        rw [collectOnto, ih _ _ hrest, hflatten]
        simp only [hlength, List.reverse_append, List.reverse_reverse, List.append_assoc]

/-! ## Feeds of an image -/

/-- The feed hands out the bytes of an image in pieces of any sizes, none of them empty. It may fail
after a number of bytes: the first request behind them fails. Otherwise it ends with the image. -/
structure HandsOut (f : Feed) (image : List UInt8) (failure? : Option (Nat × FeedError)) :
    Prop where
  pieces : ∀ piece ∈ f.pieces, piece ≠ []
  handed : f.pieces.flatten = failure?.elim image fun (n, _) => image.take n
  failure : f.failure? = failure?.bind fun (n, e) => if n ≤ image.length then some e else none

namespace HandsOut

variable {f : Feed} {image : List UInt8} {failure? : Option (Nat × FeedError)}

/-- A failure behind the limit, or behind the end of the image, is not seen. -/
theorem collect_of_late (h : f.HandsOut image failure?) {limit : Nat}
    (hlate : ∀ n e, failure? = some (n, e) → limit ≤ n ∨ image.length < n) :
    f.collect limit = .ok (image.take limit) := by
  cases failure? with
  | none =>
    have hhanded : f.pieces.flatten = image := h.handed
    have hfailure : f.failure? = none := h.failure
    rw [collect, collectOnto_eq _ _ _ h.pieces, hhanded, hfailure]
    rfl
  | some failure =>
    obtain ⟨n, e⟩ := failure
    have hhanded : f.pieces.flatten = image.take n := h.handed
    have hfailure : f.failure? = if n ≤ image.length then some e else none := h.failure
    rw [collect, collectOnto_eq _ _ _ h.pieces, hhanded, hfailure]
    by_cases hend : n ≤ image.length
    · have hn : limit ≤ n := (hlate n e rfl).resolve_right (Nat.not_lt.mpr hend)
      have hall : ¬ (image.take n).length < limit := by
        rw [List.length_take_of_le hend]
        exact Nat.not_lt.mpr hn
      have htake : (image.take n).take limit = image.take limit := by
        rw [List.take_take, Nat.min_eq_left hn]
      rw [if_pos hend, htake]
      exact if_neg hall
    · have hwhole : image.take n = image := List.take_of_length_le (Nat.le_of_not_le hend)
      rw [if_neg hend, hwhole]
      rfl

/-- A failure before the limit, and not behind the end of the image, is seen. -/
theorem collect_of_early {n : Nat} {e : FeedError} (h : f.HandsOut image (some (n, e)))
    {limit : Nat} (hlimit : n < limit) (hend : n ≤ image.length) :
    f.collect limit = .error e := by
  have hhanded : f.pieces.flatten = image.take n := h.handed
  have hfailure : f.failure? = some e := h.failure.trans (if_pos hend)
  have hfew : (image.take n).length < limit := by
    rwa [List.length_take_of_le hend]
  rw [collect, collectOnto_eq _ _ _ h.pieces, hhanded, hfailure]
  exact if_pos hfew

end HandsOut

end Feed

namespace Cpu

variable {β : Type u} [Bus β]

/-! ## Loading -/

/-- A load depends on no more of an image than fits. -/
theorem load_congr (c : Cpu β) {offset : UInt16} {image image' : List UInt8}
    (h : image.take (Bus.room offset) = image'.take (Bus.room offset)) :
    c.load image offset = c.load image' offset := by
  have hlength : min image.length (Bus.room offset) = min image'.length (Bus.room offset) := by
    rw [Nat.min_comm, ← List.length_take, h, List.length_take, Nat.min_comm]
  have hload : Bus.load c.bus offset image = Bus.load c.bus offset image' := by
    rw [Bus.load, Bus.load, h, hlength]
  rw [load, load, hload]

theorem load_take_room (c : Cpu β) (image : List UInt8) (offset : UInt16) :
    c.load (image.take (Bus.room offset)) offset = c.load image offset := by
  refine c.load_congr ?_
  rw [List.take_take, Nat.min_self]

/-- **Loading from a feed.** On any machine, from any address on, and however a feed cuts an image.
If the feed does not fail, or only behind what there is room for, or only behind the end of the
image, then loading from it is loading the image: the number is the same, and so is all of the
machine. If it fails before, its failure is the result and the machine is as it was. -/
theorem load_from_handed_out (c : Cpu β) (offset : UInt16) {image : List UInt8}
    {failure? : Option (Nat × FeedError)} {f : Feed} (h : f.HandsOut image failure?) :
    ((∀ n e, failure? = some (n, e) → 65536 - offset.toNat ≤ n ∨ image.length < n) →
      c.loadFrom f offset = (.ok (c.load image offset).1, (c.load image offset).2)) ∧
    ∀ n e, failure? = some (n, e) → n < 65536 - offset.toNat → n ≤ image.length →
      c.loadFrom f offset = (.error e, c) := by
  constructor
  · intro hlate
    have hcollect : f.collect (Bus.room offset) = .ok (image.take (Bus.room offset)) :=
      h.collect_of_late hlate
    rw [loadFrom, hcollect, ← c.load_take_room image offset]
  · intro n e he hroom hend
    subst he
    have hcollect : f.collect (Bus.room offset) = .error e := h.collect_of_early hroom hend
    rw [loadFrom, hcollect]

/-- A machine without a program. -/
def bare : Cpu Ram := .powerOn {} {} (.holding [])

/-- A feed of five bytes that fails after three of them, in pieces of one byte and of two. -/
def failingFeed : Feed := ⟨[[0xA9], [0x2A, 0x60]], some ⟨"image truncated"⟩⟩

/-- Two bytes below the end of the address space the failure is not seen, and three below it is. -/
theorem load_from_handed_out_atEnd :
    failingFeed.HandsOut [0xA9, 0x2A, 0x60, 0x01, 0x02] (some (3, ⟨"image truncated"⟩)) ∧
      bare.loadFrom failingFeed 0xFFFD = (.ok 3,
        (bare.load [0xA9, 0x2A, 0x60, 0x01, 0x02] 0xFFFD).2) ∧
      bare.loadFrom failingFeed 0xFFFC = (.error ⟨"image truncated"⟩, bare) := by
  have h : failingFeed.HandsOut [0xA9, 0x2A, 0x60, 0x01, 0x02]
      (some (3, ⟨"image truncated"⟩)) := ⟨by decide, rfl, rfl⟩
  refine ⟨h, ?_, ?_⟩
  · refine (load_from_handed_out bare 0xFFFD h).1 ?_
    rintro n e ⟨⟩
    exact .inl (by decide)
  · exact (load_from_handed_out bare 0xFFFC h).2 3 _ rfl (by decide) (by decide)

end Cpu

end Nmos6502
