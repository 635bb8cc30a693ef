/-
# Equality and hash codes

Equality of values as their authors see it: numbers by what they are worth, lists
item by item, mappings and sets whatever their order, specs by their parts, other
objects by identity. Hash codes follow keys, except that a spec with an unsupported
type hashes the text that shows it, and nested fields hash in their order.

Key definitions:
* `Value.same`: equality.
* `Value.hashCode`: the hash code, or the fault of a value that has none.
-/
import ArgSchema.Value.Key

namespace ArgSchema

/-- Collections are equal only within one family. -/
inductive CollectionFamily where
  | list | tuple | deque | set | object
  deriving DecidableEq, Repr

def CollectionKind.family : CollectionKind → CollectionFamily
  | .list | .listSub | .userList => .list
  | .tuple | .tupleSub | .point => .tuple
  | .deque => .deque
  | .set | .frozenset => .set
  | .pair | .generator | .element _ => .object

namespace Value

/-- The keys of the members of a set. -/
def memberKeys (items : List Value) : List Key :=
  items.filterMap fun x => x.key.toOption

/-- Whether two sets have the same members. -/
def sameMembers (xs ys : List Value) : Bool :=
  xs.length == ys.length && (memberKeys xs).all fun k => (memberKeys ys).contains k

mutual
/-- Whether two values are equal. -/
def same : Value → Value → Bool
  | .atom a, .atom b => a.key == b.key
  | .collection kind id items, .collection kind' id' items' =>
    kind.family == kind'.family &&
      match kind.family with
      | .set => sameMembers items items'
      | .object => id == id'
      | _ => sameItems items items'
  | .mapping kind _ es, .mapping kind' _ es' =>
    if kind = .ordered ∧ kind' = .ordered then sameInOrder es es'
    else es.length == es'.length && sameEntries es es'
  | .exception _ id _ _, .exception _ id' _ _ => id == id'
  | .typeName name, .typeName name' => name.same name'
  | .nested fields, .nested fields' => fields.length == fields'.length && sameEntries fields fields'
  | .instanceOf c, .instanceOf c' => c.same c'
  | .unsatisfiable raw, .unsatisfiable raw' => raw.same raw'
  | .fieldSpec isa optional, .fieldSpec isa' optional' => isa.same isa' && optional.same optional'
  | .schema id _ _, .schema id' _ _ => id == id'
  | _, _ => false

def sameItems : List Value → List Value → Bool
  | [], [] => true
  | x :: xs, y :: ys => x.same y && sameItems xs ys
  | _, _ => false

/-- Every entry has an equal one under the same key. -/
def sameEntries : List (Value × Value) → List (Value × Value) → Bool
  | [], _ => true
  | (k, v) :: rest, es =>
    (match k.key.toOption.bind fun key => Entries.find? key es with
      | some w => v.same w
      | none => false)
    && sameEntries rest es

/-- The entries are equal one by one, their order included. -/
def sameInOrder : List (Value × Value) → List (Value × Value) → Bool
  | [], [] => true
  | (k, v) :: rest, (k', v') :: rest' => k.same k' && v.same v' && sameInOrder rest rest'
  | _, _ => false
end

end Value

/-! ### Hash codes -/

/-- The modulus of numeric hash codes. -/
def hashModulus : Nat := Nat.pow 2 61 - 1

/-- `b ^ e` modulo the modulus of numeric hash codes. -/
def powModulo (b : Nat) : (bits e : Nat) → Nat
  | 0, _ => 1
  | bits + 1, e =>
    let half := powModulo b bits (e / 2)
    let square := half * half % hashModulus
    if e % 2 = 1 then square * b % hashModulus else square

/-- The code of an infinity, up to its sign. -/
def infinityCode : Int := 314159

/-- The code that marks a failure is never used: its place is taken by the next one. -/
def avoidFailureCode (n : Int) : Int := if n = -1 then -2 else n

/-- Equal rationals have equal codes: the quotient of the residues, with its sign. -/
def rationalCode (q : Rat) : Int :=
  let den := q.den % hashModulus
  let size : Int :=
    if den = 0 then infinityCode
    else ((q.num.natAbs % hashModulus * powModulo den 61 (hashModulus - 2) % hashModulus : Nat) : Int)
  avoidFailureCode (if q.num < 0 then -size else size)

/-- The bytes of a text whose characters all fit in `width` bytes, the low byte first. -/
def textBytes (width : Nat) (s : String) : List Nat :=
  s.toList.flatMap fun c => (List.range width).map fun i => c.toNat / Nat.pow 256 i % 256

/-- Bytes hash alike whether they are text or not; nothing at all hashes like zero. -/
def bytesCode (data : List Nat) : KeyToken := if data.isEmpty then .number 0 else .bytes data

/-- The narrowest width that fits every character of a text. -/
def textWidth (s : String) : Nat :=
  if s.toList.all fun c => c.toNat < 0x100 then 1
  else if s.toList.all fun c => c.toNat < 0x10000 then 2
  else 4

/-- What a step of a key contributes to the hash code. -/
def KeyToken.code : KeyToken → KeyToken
  | .number q => .number (rationalCode q)
  | .infinite negative => .number (if negative then -infinityCode else infinityCode)
  | .text s | .unsatisfiable s => bytesCode (textBytes (textWidth s) s)
  | .bytes data => bytesCode data
  | .color c => bytesCode (textBytes 1 c.name)
  | .typeName | .instanceOf => .tuple 1
  | .nested size => .tuple size
  | .fieldSpec => .tuple 2
  | token => token

/-- The hash code of a value. -/
def Value.hashCode (v : Value) : Except Fault Key := do
  .ok ((← v.key).map KeyToken.code)

/-- Whether two values have the same hash code. -/
def Value.sameHash (a b : Value) : Except Fault Bool := do
  let x ← a.hashCode
  .ok (x == (← b.hashCode))

/-- The number of members of the set of two values. -/
def Value.pairSize (a b : Value) : Except Fault Nat := do
  .ok (if (← a.sameHash b) && a.same b then 1 else 2)

end ArgSchema
