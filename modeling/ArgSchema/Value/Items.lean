/-
# Going through a value

What the items of a value are when it is gone through, and what mapping a value
gives: a mapping gives a copy of itself, anything else is gone through pair by pair.
An ordered sequence also gives its items by position. A list has room for so many items, which
depends on the machine: the room is an argument of whatever lists the numbers of a range.

Key definitions:
* `Sequence.get`, `Sequence.toList`: one item of an ordered sequence, and all of them.
* `Value.items`: the items.
* `Value.toEntries`: the mapping.
-/
import ArgSchema.Value.Key
import ArgSchema.Value.Length

namespace ArgSchema

namespace Sequence

/-- All items, of a range only if a list has room for them. -/
def toList (room : Nat) : Sequence → Except Fault (List Value)
  | .items xs => .ok xs
  | .range start stop step => do
    if (← rangeSize start stop step) ≤ room then .ok (Value.rangeItems start stop step)
    else .error .noMemory

/-- The item under a key: null unless the key is an integer that counts from the start to an
item. -/
def get (s : Sequence) (key : Value) : Except Fault Value :=
  match key.int? with
  | none => .ok .null
  | some i =>
    if i < 0 then .ok .null
    else match s with
      | .items xs => .ok ((xs[i.toNat]?).getD .null)
      | .range start stop step => do
        .ok (if i < (← rangeSize start stop step) then .ofInt (start + step * i) else .null)

end Sequence

namespace Value

/-- The members of an enumeration under their names. -/
def enumEntries : Class → Entries
  | .color => [Color.red, Color.blue].map fun c => (ofText c.name, .atom (.color c))
  | .level => [0, 1, 2].map fun n => (ofText (levelName n), .atom (.int .level n))
  | _ => []

/-- The items of a value: keys of a mapping, characters of a text, numbers of bytes. -/
def items (room : Nat) (v : Value) : Except Fault (List Value) :=
  match v with
  | .collection _ _ xs => .ok xs
  | .mapping _ _ es => .ok (es.map Prod.fst)
  | .atom (.range start stop step) => (Sequence.range start stop step).toList room
  | .atom (.text kind s) => .ok (characters kind s)
  | .atom (.bytes _ data) => .ok (byteNumbers data)
  | .atom (.cls c) =>
    if c.memberCount?.isSome then .ok ((enumEntries c).map Prod.snd) else .error (.notIterable v.classOf)
  | .atom (.typeAlias .intOrStr) => .error (.notIterable v.classOf)
  | .atom (.typeAlias a) => .ok [.atom (.typeAlias a)]
  | v => .error (.notIterable v.classOf)

/-- Reads the item at `position` as a pair. -/
def toPair (room position : Nat) (v : Value) : Except Fault (Value × Value) :=
  match v.items room with
  | .error (.notIterable _) => .error (.notAPair position)
  | .error f => .error f
  | .ok [a, b] => .ok (a, b)
  | .ok xs => .error (.pairLength position xs.length)

/-- Writes items, read as pairs, one after another. -/
def insertPairs (room : Nat) (es : Entries) (position : Nat) : List Value → Except Fault Entries
  | [] => .ok es
  | x :: rest => do
    let (k, v) ← x.toPair room position
    insertPairs room (Entries.insert (← k.key) k v es) (position + 1) rest

/-- The class whose objects have keys that `v` is or stands for. -/
def keyedClass? (v : Value) : Option Class :=
  match v with
  | .atom (.cls c) => if c.isSubclass .mapping || c = .element then some c else none
  | .atom (.typeAlias .dictOfStrInt) => some .dict
  | _ => none

/-- The mapping that a value gives. Elements are without attributes, which are what they
have keys for, and the first number of a range is no pair already. -/
def toEntries (room : Nat) (v : Value) : Except Fault Entries :=
  match v with
  | .mapping _ _ es => .ok es
  | .collection (.element _) _ _ => .ok []
  | .atom (.range start stop step) =>
    if rangeLength start stop step = 0 then .ok [] else .error (.notAPair 0)
  | v => match v.keyedClass? with
    | some c => .error (.classKeys c)
    | none => do insertPairs room [] 0 (← v.items room)

end Value
end ArgSchema
