/-!
# Structured data

Settings and registers can be kept outside a machine as structured data: numbers, texts, lists and
objects. A `Datum` is such a value. The readers here say what counts as a byte, a word, one of a set
of names, or the fields of a record; what is none of these is `none`.

## Main definitions

* `Datum`
* `Datum.byte?`, `Datum.word?` — an integer in range
* `Datum.choice?` — one of a set of named values
* `Datum.fields?` — the fields of a record, from an object or a list
-/

universe u

namespace Nmos6502

/-- A value of structured data. -/
inductive Datum
  | null
  | bool (b : Bool)
  /-- A number written without a fraction or an exponent. -/
  | integer (n : Int)
  /-- Any other number. It is never taken for an integer. -/
  | fraction
  | text (s : String)
  | list (items : List Datum)
  | object (fields : List (String × Datum))
  deriving Inhabited

namespace Datum

/-- An integer below `bound`. -/
def below? (bound : Nat) : Datum → Option Nat
  | integer (.ofNat n) => if n < bound then some n else none
  | _ => none

/-- An integer below 256. -/
def byte? (d : Datum) : Option UInt8 := (d.below? 256).map UInt8.ofNat

/-- An integer below 65536. -/
def word? (d : Datum) : Option UInt16 := (d.below? 65536).map UInt16.ofNat

/-- The one of `all` that is named, by a text or by an object whose only field has the name and
holds nothing. -/
def choice? {α : Type u} (name : α → String) (all : List α) : Datum → Option α
  | text s => all.find? fun x => name x == s
  | object [(s, null)] => all.find? fun x => name x == s
  | _ => none

/-- The fields of a record with the given names: from an object, which may have others, or from a
list of exactly as many. -/
def fields? (names : List String) : Datum → Option (List Datum)
  | object fields => names.mapM fun n => fields.lookup n
  | list items => if items.length = names.length then some items else none
  | _ => none

def ofByte (b : UInt8) : Datum := integer b.toNat

def ofWord (w : UInt16) : Datum := integer w.toNat

end Datum

end Nmos6502
