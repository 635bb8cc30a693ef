/-
# Reading and changing items

The item of a value under a key or at a position, and the changes that mappings,
lists, queues, elements and bytes allow: writing, removing and appending an item.
Positions count from the end if they are negative.

A change makes the same object hold something else, so every value that holds the
object changes with it: `Value.write` puts the new contents wherever the object is.

Key definitions:
* `Value.item`: the item under a key.
* `Edit`, `Edit.apply`, `Edit.applyAt`: a change, of an object or along a path of keys.
* `Value.refusal`: the fault of a value that does not allow a change.
* `Value.write`: a value after an object in it was changed.
-/
import ArgSchema.Value.Items

namespace ArgSchema

/-! ### Positions -/

/-- The place among `n` items that a position names. -/
def placeOf (n : Nat) (position : Int) : Option Nat :=
  let place := if position < 0 then position + n else position
  if 0 ≤ place ∧ place < n then some place.toNat else none

/-- The position that `key` is for an object of the class `c`. Positions of more than a
machine word are refused as such, except in ranges, which can be that long. -/
def positionOf (c : Class) (key : Value) : Except Fault Int :=
  match key.int? with
  | none => .error (.badPosition c key.classOf)
  | some i => if isHuge i && c != .range then .error (.hugePosition key.classOf) else .ok i

/-- The place of a position among the `n` items of an object of the class `c`. -/
def placeAt (c : Class) (write : Bool) (n : Nat) (position : Int) : Except Fault Nat :=
  match placeOf n position with
  | some place => .ok place
  | none => .error (.outOfRange c write)

/-- The place of a key among the `n` items of an object of the class `c`. -/
def placeOfKey (c : Class) (write : Bool) (n : Nat) (key : Value) : Except Fault Nat := do
  placeAt c write n (← positionOf c key)

/-- The class whose wording a collection uses for positions, if it has positions. -/
def CollectionKind.positionClass? : CollectionKind → Option Class
  | .list | .listSub | .userList => some .list
  | .tuple | .tupleSub | .point | .pair => some .tuple
  | .deque => some .deque
  | .element _ => some .element
  | .set | .frozenset | .generator => none

/-- Whether items of a collection can be written, removed and appended. -/
def CollectionKind.canChange : CollectionKind → Bool
  | .list | .listSub | .userList | .deque | .element _ => true
  | _ => false

/-- Whether a value can be an item of a collection: the children of elements are elements. -/
def CollectionKind.admits (kind : CollectionKind) (x : Value) : Bool :=
  match kind with
  | .element _ => x.isA .element
  | _ => true

/-- A change of an object. -/
inductive Edit where
  | put (key value : Value)
  | remove (key : Value)
  | append (value : Value)
  deriving Repr

namespace Value

/-! ### Reading -/

/-- The item at a place of a list of items. -/
def itemAt (c : Class) (items : List Value) (key : Value) : Except Fault Value := do
  let place ← placeOfKey c false items.length key
  .ok ((items[place]?).getD null)

/-- The member of an enumeration that a key names. Other classes take no keys. -/
def classItem (c : Class) (key : Value) : Except Fault Value :=
  if c.memberCount?.isSome then do
    match ← lookup? (enumEntries c) key with
    | some x => .ok x
    | none => .error (.missingKey key)
  else .error (.noParameters c)

/-- The item of a value under a key. -/
def item (v key : Value) : Except Fault Value :=
  match v with
  | .mapping _ _ es => do
    match ← lookup? es key with
    | some x => .ok x
    | none => .error (.missingKey key)
  | .collection kind _ items =>
    match kind.positionClass? with
    | some c => itemAt c items key
    | none => .error (.unsupported v.classOf "is not subscriptable")
  | .atom (.text kind s) => itemAt .str (characters kind s) key
  | .atom (.bytes kind data) => itemAt kind.classOf (byteNumbers data) key
  | .atom (.range start stop step) => do
    let place ← placeOfKey .range false (rangeLength start stop step) key
    .ok (ofInt (start + step * place))
  | .atom (.cls c) => classItem c key
  | .atom (.typeAlias a) => .error (.parametersGiven a)
  | v => .error (.unsupported v.classOf "is not subscriptable")

/-- Whether a value makes a list under a key when it is asked for it. -/
def startsList (v key : Value) : Except Fault Bool :=
  match v with
  | .mapping .default _ es => do .ok (← lookup? es key).isNone
  | _ => .ok false

end Value

/-! ### Refusals -/

namespace Edit

/-- How the change of an item is refused where no item can be changed: `position` if the
key counts as a position, `other` if not. -/
def refusedItem (positions : Bool) (key : Value) (position other : Fault) : Fault :=
  match positions, key.int? with
  | true, some i => if isHuge i then .hugePosition key.classOf else position
  | _, _ => other

/-- How a change is refused where no item can be changed; `unsupported` says what is not
done, and `append` refuses a value to append. -/
def refused (positions : Bool) (unsupported : String → Fault) (append : Value → Fault) :
    Edit → Fault
  | .put key _ =>
    let fault := unsupported "does not support item assignment"
    refusedItem positions key fault fault
  | .remove key =>
    refusedItem positions key (unsupported "doesn't support item deletion")
      (unsupported "does not support item deletion")
  | .append x => append x

end Edit

/-- The class that declares the appending that a class has, if it has one. -/
def Class.appending? : Class → Option Class
  | .list | .listSub => some .list
  | .deque => some .deque
  | .bytearray => some .bytearray
  | .element => some .element
  | .userList => some .userList
  | .mutableSequence => some .mutableSequence
  | _ => none

namespace Value

/-- How a value refuses to have `x` appended. A class that has an appending takes `x` for
the collection. -/
def appendRefusal (v x : Value) : Fault :=
  let owner := match v with
    | .atom (.cls c) => c.appending?
    | .atom (.typeAlias .listOfInt) => some .list
    | _ => none
  match owner with
  | some c => .unboundAppend c x.classOf
  | none => .missingPart v "append"

/-- How a change is refused by a value that does not allow it. -/
def refusal (v : Value) (edit : Edit) : Fault :=
  match v, edit with
  | .atom (.bytes .view _), .put _ _ | .atom (.bytes .view _), .remove _ => .readOnly
  | v, edit => edit.refused v.classOf.hasPositions (.unsupported v.classOf) v.appendRefusal

/-- The byte that a value stands for. -/
def asByte (v : Value) : Except Fault Nat :=
  match v.int? with
  | none => .error (.notAnInteger v.classOf)
  | some n => if 0 ≤ n ∧ n < 256 then .ok n.toNat else .error .notAByte

end Value

/-! ### Changes -/

namespace Edit

/-- The fault of a mapping without the key that is removed; one that is a chain says so. -/
def missingKey (kind : MappingKind) (key : Value) : Fault :=
  match kind with
  | .chain => .missingKey (.ofText ("Key not found in the first mapping: " ++ key.shown))
  | _ => .missingKey key

/-- The entries of a mapping after a change. -/
def applyEntries (v : Value) (kind : MappingKind) (es : Entries) : Edit → Except Fault Entries
  | .put key x => do .ok (Entries.insert (← key.key) key x es)
  | .remove key => do
    let k ← key.key
    if (Entries.find? k es).isSome then .ok (Entries.erase k es) else .error (missingKey kind key)
  | edit => .error (v.refusal edit)

/-- The items of an ordered collection after a change. -/
def applyItems (kind : CollectionKind) (c : Class) (items : List Value) :
    Edit → Except Fault (List Value)
  | .put key x => do
    let place ← placeOfKey c true items.length key
    if kind.admits x then .ok (items.set place x) else .error (.notAnElement x.classOf false)
  | .remove key => do .ok (items.eraseIdx (← placeOfKey c true items.length key))
  | .append x =>
    if kind.admits x then .ok (items ++ [x]) else .error (.notAnElement x.classOf true)

/-- Bytes after a change. That the value is a byte is asked before the place of the
position. -/
def applyBytes (data : List Nat) : Edit → Except Fault (List Nat)
  | .put key x => do
    let position ← positionOf .bytearray key
    let b ← x.asByte
    .ok (data.set (← placeAt .bytearray true data.length position) b)
  | .remove key => do .ok (data.eraseIdx (← placeOfKey .bytearray true data.length key))
  | .append x => do .ok (data ++ [← x.asByte])

/-- The identity of an object that is changed, and what the object becomes. -/
def apply (edit : Edit) (v : Value) : Except Fault (Nat × Value) :=
  match v with
  | .mapping .proxy _ _ => .error (v.refusal edit)
  | .mapping kind id es => do .ok (id, .mapping kind id (← edit.applyEntries v kind es))
  | .collection kind id items =>
    match kind.canChange, kind.positionClass? with
    | true, some c => do .ok (id, .collection kind id (← edit.applyItems kind c items))
    | _, _ => .error (v.refusal edit)
  | .atom (.bytes (.mutable id) data) => do
    .ok (id, .atom (.bytes (.mutable id) (← edit.applyBytes data)))
  | v => .error (v.refusal edit)

/-- The identity of the object that a change at the end of a path of keys makes different,
and what it becomes. A mapping with a default starts a list of the identity `fresh` under a
key that it does not hold. -/
def applyAt (edit : Edit) (fresh : Nat) : (path : List Value) → Value → Except Fault (Nat × Value)
  | [], v => edit.apply v
  | key :: rest, v => do
    match v, ← v.startsList key with
    | .mapping kind id es, true => do
      let (_, new) ← edit.applyAt fresh rest (.collection .list fresh [])
      .ok (id, .mapping kind id (es ++ [(key, new)]))
    | v, _ => do edit.applyAt fresh rest (← v.item key)

end Edit

namespace Value

mutual
/-- A value after the object `id` in it has become `new`. -/
def write (id : Nat) (new : Value) : Value → Value
  | .atom (.bytes (.mutable i) data) => if i = id then new else .atom (.bytes (.mutable i) data)
  | .atom a => .atom a
  | .collection kind i items =>
    if i = id then new else .collection kind i (writeItems id new items)
  | .mapping kind i es => if i = id then new else .mapping kind i (writeEntries id new es)
  | .exception c i args files => .exception c i (writeItems id new args) (writeItems id new files)
  | .typeName name => .typeName (write id new name)
  | .nested fields => .nested (writeEntries id new fields)
  | .instanceOf c => .instanceOf (write id new c)
  | .unsatisfiable raw => .unsatisfiable (write id new raw)
  | .fieldSpec isa optional => .fieldSpec (write id new isa) (write id new optional)
  | .schema i raw fields => .schema i (write id new raw) (writeEntries id new fields)

def writeItems (id : Nat) (new : Value) : List Value → List Value
  | [] => []
  | x :: rest => write id new x :: writeItems id new rest

def writeEntries (id : Nat) (new : Value) : List (Value × Value) → List (Value × Value)
  | [] => []
  | (k, x) :: rest => (write id new k, write id new x) :: writeEntries id new rest
end

end Value
end ArgSchema
