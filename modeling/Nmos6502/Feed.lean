/-!
# Feeds

A program image may arrive in pieces, from a source that can fail. A feed is such a source as a
value: the pieces it hands out, and whether it then ends or fails. Reading from a feed stops at the
first of three things: enough bytes have arrived, or the feed ends, or it fails. An empty piece is
an end.

What matters most is what is not asked for. Once there are enough bytes the feed is not touched
again, so a failure behind them is never seen.

## Main definitions

* `Feed`, `Feed.collect` — a source, and the bytes read from it up to a limit
-/

namespace Nmos6502

/-- Why a feed failed. -/
structure FeedError where
  reason : String
  deriving DecidableEq, Repr

def FeedError.message (e : FeedError) : String := "failed to read program image: " ++ e.reason

/-- A source that hands out pieces, and then ends or fails. -/
structure Feed where
  pieces : List (List UInt8)
  /-- The failure after the last piece; `none` if the feed just ends. -/
  failure? : Option FeedError := none
  deriving DecidableEq, Repr

namespace Feed

/-- Read pieces until `limit` bytes have arrived behind those in `acc`, which are in reverse. -/
def collectOnto (failure? : Option FeedError) (acc : List UInt8) :
    (limit : Nat) → (pieces : List (List UInt8)) → Except FeedError (List UInt8)
  | 0, _ => .ok acc.reverse
  | _ + 1, [] =>
    match failure? with
    | some e => .error e
    | none => .ok acc.reverse
  | _ + 1, [] :: _ => .ok acc.reverse
  | limit + 1, (b :: rest) :: pieces =>
    let piece := (b :: rest).take (limit + 1)
    collectOnto failure? (piece.reverse ++ acc) (limit - rest.length) pieces

/-- The first `limit` bytes of a feed, or all of it if it ends before. -/
def collect (f : Feed) (limit : Nat) : Except FeedError (List UInt8) :=
  collectOnto f.failure? [] limit f.pieces

end Feed

end Nmos6502
