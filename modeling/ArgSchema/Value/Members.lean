/-
# The members of a set

Equal members are one, the first of them. Members lie in a table at places that follow
from their hash codes, and are listed in the order of their places: a member takes the
first free place on a walk that starts at its code, and a table that is three fifths
full gives way to a larger one.

Only numbers and tuples of them have codes that are the same in every run. The members
of any other set are listed as they were written.

Key definitions:
* `Value.memberCode?`: the code of a number or of a tuple of numbers.
* `Places.insert`: the table with one more member.
* `Value.members`: the members of a set.
-/
import ArgSchema.Value.Equality

namespace ArgSchema

/-! ### Codes -/

/-- The code of a tuple, from the codes of its items. -/
def tupleCode (codes : List UInt64) : UInt64 :=
  let start : UInt64 := 2870177450012600261
  let mix (code c : UInt64) : UInt64 :=
    let sum := code + c * 14029467366897019727
    (sum <<< 31 ||| sum >>> 33) * 11400714785074694791
  let mixed := codes.foldl mix start
  let code := mixed + (UInt64.ofNat codes.length ^^^ (start ^^^ 3527539))
  if code = 0xFFFFFFFFFFFFFFFF then 1546275796 else code

/-- The code of a value that is no tuple, if the code is a number. -/
def Value.numberCode? (v : Value) : Option UInt64 :=
  match v.hashCode with
  | .ok [.number q] => if q.den = 1 then some (UInt64.ofInt q.num) else none
  | _ => none

namespace Value

mutual
/-- The code of a number or of a tuple of numbers. -/
def memberCode? : Value → Option UInt64
  | .collection kind id items =>
    match kind with
    | .tuple | .tupleSub | .point => (memberCodes? items).map tupleCode
    | kind => (Value.collection kind id items).numberCode?
  | v => v.numberCode?

def memberCodes? : List Value → Option (List UInt64)
  | [] => some []
  | x :: rest => do
    let code ← x.memberCode?
    some (code :: (← memberCodes? rest))
end

end Value

/-! ### Places -/

/-- A table of places; each is free or holds a member with its code. -/
structure Places where
  slots : Array (Option (UInt64 × Value))
  used : Nat
  deriving Repr

namespace Places

/-- A table without members that has more than `n` places: a power of two, at least eight. -/
def ofMoreThan (n : Nat) : Places := ⟨Array.replicate (max 8 (Nat.pow 2 (n.log2 + 1))) none, 0⟩

/-- Whether a place is free. -/
def isFree (t : Places) (place : Nat) : Bool := t.slots[place]?.any Option.isNone

/-- The free place on the walk from `place`: each step tries ten places in a row, or one if
the table ends before, and goes on from five times the place and the rest of the code. -/
def walk (t : Places) : (steps place code : Nat) → Nat
  | 0, place, _ => place
  | steps + 1, place, code =>
    let row := if place + 9 < t.slots.size then (List.range 10).map (place + ·) else [place]
    match row.find? t.isFree with
    | some free => free
    | none => walk t steps ((place * 5 + 1 + code / 32) % t.slots.size) (code / 32)

/-- The place of a new member. A code is used up after thirteen steps; from there on the walk
comes by every place. -/
def placeFor (t : Places) (code : UInt64) : Nat :=
  t.walk (13 + t.slots.size) (code.toNat % t.slots.size) code.toNat

/-- The table with a member at its place, whatever its size. -/
def settle (t : Places) (member : UInt64 × Value) : Places :=
  ⟨t.slots.setIfInBounds (t.placeFor member.1) (some member), t.used + 1⟩

/-- The members in the order of their places. -/
def toList (t : Places) : List (UInt64 × Value) := t.slots.toList.filterMap id

/-- A larger table with the same members: four times their number, or twice if they are many. -/
def grow (t : Places) : Places :=
  t.toList.foldl settle (ofMoreThan (if t.used > 50000 then t.used * 2 else t.used * 4))

/-- The table with one more member. -/
def insert (t : Places) (member : UInt64 × Value) : Places :=
  let t := t.settle member
  if t.used * 5 < (t.slots.size - 1) * 3 then t else t.grow

end Places

namespace Value

/-- Members in the order of their places in a table that held none, if all of them have codes. -/
def inPlacesOf (table : Places) (xs : List Value) : List Value :=
  match memberCodes? xs with
  | some codes => ((codes.zip xs).foldl Places.insert table).toList.map Prod.snd
  | none => xs

/-- Members in the order of their places, where one is put in after the other. -/
def inPlaces (xs : List Value) : List Value := inPlacesOf (Places.ofMoreThan 0) xs

/-- The keys of a mapping in the order of their places. Their number is known before they are
put in, so the table is large enough from the start. -/
def keysInPlaces (keys : List Value) : List Value :=
  inPlacesOf (Places.ofMoreThan (if keys.length < 5 then 0 else 2 * keys.length)) keys

/-- The members of the set of some values. -/
def members (xs : List Value) : Except Fault (List Value) := do
  let es ← Entries.ofPairs (xs.map fun x => (x, x))
  .ok (inPlaces (es.map Prod.fst))

end Value
end ArgSchema
